import Mathlib.Data.List.Dedup
import Mathlib.Data.List.Perm.Lattice
import Dnt.Theory.Interface.Cascade

/-!
# Counts of Senders

The count of senders of an interface should be the number of send actions on it in
the attached pipelines. It is raised whenever a pipeline is attached and lowered
once when it is deleted, so a pipeline that sends on anything must be attached once
before it is dropped.

The invariant says who has the references to a pipeline, and that senders are
counted for streams.

## Main definitions

* `LifetimesRight`: What is expected of counts and deletions in every state.
* `Careful`: The steps after which this is so.
* `LifeInv`: The invariant of careful histories.

## Theorems

* `LifeInv.right`: The invariant gives what is expected.
* `lifeInv_addInterface`, `lifeInv_compile`, `AttachedTo.inv`, `lifeInv_drop`: The
  steps that delete no interface keep the invariant.
-/

namespace Dnt

open Function Lifetimes

variable {i j p : Nat}

open List

/-! ## What should hold -/

/-- The pipelines of all interfaces in the table. -/
def Lifetimes.attached (w : Lifetimes) : List Nat :=
  w.stateInterfaces.flatMap w.streams

/-- Somebody has a reference to the pipeline. -/
def Lifetimes.Live (w : Lifetimes) (p : Nat) : Prop :=
  0 < (w.pipes p).referenceCount

instance Lifetimes.Live.decidable (w : Lifetimes) (p : Nat) : Decidable (w.Live p) :=
  inferInstanceAs (Decidable (_ < _))

def Lifetimes.liveAttached (w : Lifetimes) : List Nat :=
  w.attached.dedup.filter fun p => decide (w.Live p)

/-- The send actions on an interface in live pipelines that are attached to something. -/
def Lifetimes.sendersOf (w : Lifetimes) (i : Nat) : Nat :=
  (w.liveAttached.flatMap w.sends).count i

/-- The interface was removed, and no live pipeline sends on it any more. -/
def Lifetimes.Unused (w : Lifetimes) (i : Nat) : Prop :=
  i ∉ w.stateInterfaces ∧ ∀ p < w.pipeCount, w.Live p → i ∉ w.sends p

instance Lifetimes.Unused.decidable (w : Lifetimes) (i : Nat) : Decidable (w.Unused i) :=
  inferInstanceAs (Decidable (_ ∧ _))

/-- The counts of senders are right. An interface that was removed and its parse tree, if
it ever had one, are deleted once, when no live pipeline sends on it any more. -/
structure LifetimesRight (w : Lifetimes) : Prop where
  senders : ∀ i < w.ifaceCount, (w.ifaces i).senderCount = w.sendersOf i
  interfaces : ∀ i < w.ifaceCount,
    w.log.count (.deleteInterface i) = if w.Unused i then 1 else 0
  parsetrees : ∀ i < w.ifaceCount, w.log.count (.newParsetree i) ≤ 1 ∧
    w.log.count (.deleteParsetree i) = if w.Unused i then w.log.count (.newParsetree i) else 0

/-- A step of a careful history. A pipeline only sends on interfaces in the table when it
is compiled, is attached once, and is dropped after that. When an interface is removed,
no pipeline that is not attached sends on it, its own streams have been dropped, and if
it has a parse tree, no pipeline sends on it any more. -/
def Careful (w : Lifetimes) : LifeEvent → Prop
  | .addInterface => True
  | .compile _ actions => ∀ i ∈ sendInterfaces actions, i ∈ w.stateInterfaces
  | .attach i p =>
    i ∈ w.stateInterfaces → p ∈ w.pipeCache → w.sends p = [] ∨ p ∉ w.attached ∨ w.Taken i p
  | .drop p => p ∈ w.pipeCache → w.sends p = [] ∨ p ∈ w.attached
  | .remove i => i ∈ w.stateInterfaces →
    (∀ p ∈ w.pipeCache, i ∈ w.sends p → p ∈ w.attached) ∧
      (∀ p ∈ w.pipeCache, p ∈ w.streams i → w.sends p = []) ∧
      ((w.ifaces i).parsetree = none ∨ ∀ p ∈ w.attached, i ∉ w.sends p)

instance Careful.decidable (w : Lifetimes) : ∀ e : LifeEvent, Decidable (Careful w e)
  | .addInterface => isTrue trivial
  | .compile _ actions =>
    inferInstanceAs (Decidable (∀ i ∈ sendInterfaces actions, i ∈ w.stateInterfaces))
  | .attach i p => inferInstanceAs (Decidable (i ∈ w.stateInterfaces → p ∈ w.pipeCache →
      w.sends p = [] ∨ p ∉ w.attached ∨ w.Taken i p))
  | .drop p => inferInstanceAs (Decidable (p ∈ w.pipeCache → w.sends p = [] ∨ p ∈ w.attached))
  | .remove i => inferInstanceAs (Decidable (i ∈ w.stateInterfaces →
      (∀ p ∈ w.pipeCache, i ∈ w.sends p → p ∈ w.attached) ∧
        (∀ p ∈ w.pipeCache, p ∈ w.streams i → w.sends p = []) ∧
        ((w.ifaces i).parsetree = none ∨ ∀ p ∈ w.attached, i ∉ w.sends p)))

/-! ## The invariant -/

/-- What a careful history keeps true of the counters and of the log. -/
structure LifeInv (w : Lifetimes) : Prop where
  registered : w.stateInterfaces.Nodup
  allocated : ∀ i ∈ w.stateInterfaces, i < w.ifaceCount
  compiled : ∀ p ∈ w.pipeCache, p < w.pipeCount
  streamed : ∀ p ∈ w.attached, p < w.pipeCount
  references : ∀ p, (w.pipes p).referenceCount = (w.pipeCache.count p + w.attached.count p : Nat)
  once : ∀ p, w.sends p ≠ [] → w.attached.count p ≤ 1
  known : ∀ p, ∀ i ∈ w.sends p, i < w.ifaceCount
  waiting : ∀ p ∈ w.pipeCache, p ∉ w.attached → ∀ i ∈ w.sends p, i ∈ w.stateInterfaces
  senders : ∀ i, (w.ifaces i).senderCount = ((w.attached.flatMap w.sends).count i : Nat)
  present : ∀ i ∈ w.stateInterfaces, (w.ifaces i).referenceCount = 1
  absent : ∀ i, i ∉ w.stateInterfaces → (w.ifaces i).referenceCount = 0 ∧
    ((w.ifaces i).parsetree = none ∨ (w.ifaces i).senderCount = 0)
  deleted : ∀ i, w.log.count (.deleteInterface i) =
    if i < w.ifaceCount ∧ i ∉ w.stateInterfaces ∧ (w.ifaces i).senderCount = 0 then 1 else 0
  treesIn : ∀ i ∈ w.stateInterfaces,
    w.log.count (.newParsetree i) = (if (w.ifaces i).parsetree = none then 0 else 1) ∧
      w.log.count (.deleteParsetree i) = 0
  treesOut : ∀ i, i ∉ w.stateInterfaces → w.log.count (.newParsetree i) ≤ 1 ∧
    w.log.count (.deleteParsetree i) = w.log.count (.newParsetree i) ∧
    ((w.ifaces i).senderCount = 0 ∨ w.log.count (.newParsetree i) = 0)
  treesFresh : ∀ i, w.ifaceCount ≤ i → w.log.count (.newParsetree i) = 0

variable {m : LifeMark} {v : Lifetimes} {l : List Nat} {actions : List PipelineAction}
  {f : Nat → List Nat}

/-- A list in which only elements without a value are repeated has the same values
without repetitions. -/
theorem count_flatMap_dedup (h : ∀ p, f p ≠ [] → l.count p ≤ 1) (i : Nat) :
    (l.dedup.flatMap f).count i = (l.flatMap f).count i := by
  induction l with
  | nil => rfl
  | cons p l ih =>
    have hl : ∀ q, f q ≠ [] → l.count q ≤ 1 := by
      intro q hq
      exact Nat.le_trans (count_le_count_cons) (h q hq)
    by_cases hp : p ∈ l
    · have hempty : f p = [] := by
        by_contra hne
        have hone := h p hne
        have hpos := count_pos_iff.mpr hp
        rw [count_cons_self] at hone
        omega
      rw [dedup_cons_of_mem hp, ih hl, flatMap_cons, hempty, nil_append]
    · rw [dedup_cons_of_notMem hp, flatMap_cons, flatMap_cons, count_append,
        count_append, ih hl]

section Right

variable {w : Lifetimes} (h : LifeInv w)

include h

theorem LifeInv.live_iff (p : Nat) : w.Live p ↔ p ∈ w.pipeCache ∨ p ∈ w.attached := by
  have hcount := h.references p
  unfold Live
  rw [hcount, ← count_pos_iff, ← count_pos_iff]
  omega

theorem LifeInv.sendersOf_eq (i : Nat) : w.sendersOf i = (w.attached.flatMap w.sends).count i := by
  have hlive : w.liveAttached = w.attached.dedup := by
    refine filter_eq_self.mpr fun p hp => decide_eq_true ?_
    exact (h.live_iff p).mpr (Or.inr (mem_dedup.mp hp))
  rw [sendersOf, hlive]
  exact count_flatMap_dedup h.once i

/-- An interface that is not in the table is without senders just if no live pipeline
sends on it. -/
theorem LifeInv.unused_iff (hi : i ∉ w.stateInterfaces) :
    (w.ifaces i).senderCount = 0 ↔ ∀ p < w.pipeCount, w.Live p → i ∉ w.sends p := by
  rw [h.senders i, Int.natCast_eq_zero, count_eq_zero, mem_flatMap]
  constructor
  · intro hnone p _ hlive hsend
    obtain hcache | hattached := (h.live_iff p).mp hlive
    · by_cases hattached : p ∈ w.attached
      · exact hnone ⟨p, hattached, hsend⟩
      · exact hi (h.waiting p hcache hattached i hsend)
    · exact hnone ⟨p, hattached, hsend⟩
  · rintro hall ⟨p, hattached, hsend⟩
    exact hall p (h.streamed p hattached) ((h.live_iff p).mpr (Or.inr hattached)) hsend

theorem LifeInv.right : LifetimesRight w := by
  refine ⟨fun i _ => ?_, fun i hlt => ?_, fun i hlt => ?_⟩
  · rw [h.senders i, h.sendersOf_eq i]
  · rw [h.deleted i]
    by_cases hi : i ∈ w.stateInterfaces
    · rw [if_neg fun hc => hc.2.1 hi, if_neg fun hc => hc.1 hi]
    · simp [hlt, hi, h.unused_iff hi, Unused]
  · by_cases hi : i ∈ w.stateInterfaces
    · rw [if_neg fun hc => hc.1 hi, (h.treesIn i hi).1]
      refine ⟨?_, (h.treesIn i hi).2⟩
      split_ifs <;> omega
    · obtain ⟨hone, hdeleted, hnone⟩ := h.treesOut i hi
      refine ⟨hone, ?_⟩
      split_ifs with hunused
      · exact hdeleted
      · -- somebody still sends on it, so it never had a parse tree
        rw [hdeleted]
        exact hnone.resolve_left fun hzero => hunused ⟨hi, (h.unused_iff hi).mp hzero⟩

end Right

/-! ## Steps that delete nothing -/

theorem lifeInv_start : LifeInv noLifetimes where
  registered := nodup_nil
  allocated := forall_mem_nil _
  compiled := forall_mem_nil _
  streamed := forall_mem_nil _
  references _ := rfl
  once _ hne := absurd rfl hne
  known _ := forall_mem_nil _
  waiting := forall_mem_nil _
  senders _ := rfl
  present := forall_mem_nil _
  absent _ _ := ⟨rfl, Or.inl rfl⟩
  deleted _ := rfl
  treesIn := forall_mem_nil _
  treesOut _ _ := ⟨Nat.zero_le _, rfl, .inl rfl⟩
  treesFresh _ _ := rfl

theorem foldl_ifaceAddSender_ifaces (is : List Nat) (w : Lifetimes) (j : Nat) :
    (is.foldl ifaceAddSender w).ifaces j =
      { w.ifaces j with senderCount := (w.ifaces j).senderCount + (is.count j : Nat) } := by
  induction is generalizing w with
  | nil => rw [foldl_nil, count_nil, Int.natCast_zero, Int.add_zero]
  | cons i is ih =>
    rw [foldl_cons, ih]
    by_cases hj : j = i
    · subst hj
      simp only [ifaceAddSender, setIface, update_self, count_cons_self,
        InterfaceObj.mk.injEq, true_and, and_true]
      omega
    · simp only [ifaceAddSender, setIface, update_of_ne hj,
        count_cons_of_ne (Ne.symm hj)]

theorem flatMap_append_perm {g : Nat → List Nat} (hl : l.Nodup) (hi : i ∈ l)
    (hself : g i = f i ++ [p]) (hother : ∀ j, j ≠ i → g j = f j) :
    l.flatMap g ~ p :: l.flatMap f := by
  induction l with
  | nil => exact absurd hi not_mem_nil
  | cons j l ih =>
    obtain ⟨hj, hl⟩ := nodup_cons.mp hl
    rw [flatMap_cons, flatMap_cons]
    by_cases hji : j = i
    · subst hji
      have hsame : l.flatMap g = l.flatMap f :=
        flatMap_congr fun k hk => hother k fun heq => hj (heq ▸ hk)
      rw [hself, hsame, append_assoc, singleton_append]
      exact perm_middle
    · have hrest := ih hl ((mem_cons.mp hi).resolve_left (Ne.symm hji))
      rw [hother j hji]
      exact (hrest.append_left (f j)).trans perm_middle

theorem count_joined_log (w : Lifetimes) (p : Nat) (hm : m ≠ .newParsetree i) :
    (w.joined i p).log.count m = w.log.count m := by
  simp only [joined]
  split_ifs
  · rw [count_append, count_singleton, if_neg (by simpa using hm.symm), Nat.add_zero]
  · rfl

/-- What has changed when a pipeline has been attached. -/
structure AttachedTo (w : Lifetimes) (i p : Nat) (v : Lifetimes) : Prop where
  stateInterfaces : v.stateInterfaces = w.stateInterfaces
  pipeCache : v.pipeCache = w.pipeCache
  ifaceCount : v.ifaceCount = w.ifaceCount
  pipeCount : v.pipeCount = w.pipeCount
  sends : v.sends = w.sends
  references : ∀ q, (v.pipes q).referenceCount =
    (w.pipes q).referenceCount + (if q = p then 1 else 0)
  senders : ∀ j, (v.ifaces j).senderCount =
    (w.ifaces j).senderCount + ((w.sends p).count j : Nat)
  ifaceReferences : ∀ j, (v.ifaces j).referenceCount = (w.ifaces j).referenceCount
  others : ∀ j, j ≠ i → (v.ifaces j).parsetree = (w.ifaces j).parsetree
  own : (v.ifaces i).parsetree = some (w.streams i ++ [p])
  log : v.log = (w.joined i p).log

theorem attachedTo_foldl (w : Lifetimes) (i p : Nat) :
    AttachedTo w i p ((w.sends p).foldl ifaceAddSender (w.joined i p)) := by
  have hframe := foldl_ifaceAddSender_eq (w.sends p) (w.joined i p)
  have hifaces := foldl_ifaceAddSender_ifaces (w.sends p) (w.joined i p)
  generalize (w.sends p).foldl ifaceAddSender (w.joined i p) = v at hframe hifaces
  have hself : (w.joined i p).ifaces i =
      { w.ifaces i with parsetree := some (w.streams i ++ [p]) } := update_self ..
  have hother {j : Nat} (hj : j ≠ i) : (w.joined i p).ifaces j = w.ifaces j :=
    update_of_ne hj ..
  have hpipe {q : Nat} (hq : q ≠ p) : v.pipes q = w.pipes q := by
    rw [hframe]
    exact update_of_ne hq ..
  have hraised : v.pipes p =
      { w.pipes p with referenceCount := (w.pipes p).referenceCount + 1 } := by
    rw [hframe]
    exact update_self ..
  refine ⟨by rw [hframe]; rfl, by rw [hframe]; rfl, by rw [hframe]; rfl, by rw [hframe]; rfl,
    funext fun q => ?_, fun q => ?_, fun j => ?_, fun j => ?_, fun j hj => ?_, ?_, by rw [hframe]⟩
  · by_cases hq : q = p
    · rw [sends, hq, hraised, sends]
    · rw [sends, hpipe hq, sends]
  · grind
  · rw [hifaces j]
    by_cases hj : j = i
    · rw [hj, hself]
    · rw [hother hj]
  · rw [hifaces j]
    by_cases hj : j = i
    · rw [hj, hself]
    · rw [hother hj]
  · rw [hifaces j, hother hj]
  · rw [hifaces i, hself]

theorem releaseOrder_eq_nil (hsends : sendInterfaces actions = []) : releaseOrder actions = [] :=
  perm_nil.mp (hsends ▸ releaseOrder_perm actions)

section Steps

variable {w : Lifetimes} (h : LifeInv w)

include h

theorem LifeInv.fresh : w.ifaceCount ∉ w.stateInterfaces :=
  fun hmem => Nat.lt_irrefl _ (h.allocated _ hmem)

omit h in
theorem addInterface_ifaces_self (w : Lifetimes) :
    (lifeStep w .addInterface).1.ifaces w.ifaceCount = ⟨1, 0, none⟩ :=
  update_self ..

omit h in
theorem addInterface_ifaces_of_ne {w : Lifetimes} (hj : j ≠ w.ifaceCount) :
    (lifeStep w .addInterface).1.ifaces j = w.ifaces j :=
  update_of_ne hj ..

theorem attached_addInterface : (lifeStep w .addInterface).1.attached = w.attached := by
  have hnew : (lifeStep w .addInterface).1.streams w.ifaceCount = [] := by
    rw [streams, addInterface_ifaces_self]
    rfl
  have hold : w.stateInterfaces.flatMap (lifeStep w .addInterface).1.streams =
      w.stateInterfaces.flatMap w.streams := by
    refine flatMap_congr fun j hj => ?_
    have hne : j ≠ w.ifaceCount := fun heq => h.fresh (heq ▸ hj)
    rw [streams, addInterface_ifaces_of_ne hne, streams]
  calc (lifeStep w .addInterface).1.attached
      = (lifeStep w .addInterface).1.streams w.ifaceCount ++
          w.stateInterfaces.flatMap (lifeStep w .addInterface).1.streams := flatMap_cons
    _ = w.attached := by rw [hnew, hold, nil_append, attached]

theorem LifeInv.unsent_fresh : (w.attached.flatMap w.sends).count w.ifaceCount = 0 := by
  rw [count_eq_zero, mem_flatMap]
  rintro ⟨p, _, hsend⟩
  exact Nat.lt_irrefl _ (h.known p _ hsend)

theorem lifeInv_addInterface : LifeInv (lifeStep w .addInterface).1 := by
  have hne {j : Nat} (hj : j ∈ w.stateInterfaces) : j ≠ w.ifaceCount :=
    fun heq => h.fresh (heq ▸ hj)
  have hself := addInterface_ifaces_self w
  have hother {j : Nat} (hj : j ≠ w.ifaceCount) := addInterface_ifaces_of_ne hj
  have hattached := attached_addInterface h
  refine ⟨nodup_cons.mpr ⟨h.fresh, h.registered⟩, ?_, h.compiled, ?_, ?_, ?_, ?_, ?_, ?_, ?_,
    ?_, ?_, ?_, ?_, ?_⟩
  · exact forall_mem_cons.mpr
      ⟨Nat.lt_succ_self _, fun j hj => Nat.lt_succ_of_lt (h.allocated j hj)⟩
  · rw [hattached]
    exact h.streamed
  · rw [hattached]
    exact h.references
  · rw [hattached]
    exact h.once
  · exact fun p j hj => Nat.lt_succ_of_lt (h.known p j hj)
  · rw [hattached]
    exact fun p hp hnot j hj => mem_cons_of_mem _ (h.waiting p hp hnot j hj)
  · intro j
    rw [hattached]
    by_cases hj : j = w.ifaceCount
    · subst hj
      rw [hself]
      exact congrArg Nat.cast h.unsent_fresh.symm
    · rw [hother hj]
      exact h.senders j
  · refine forall_mem_cons.mpr ⟨by rw [hself], fun j hj => ?_⟩
    rw [hother (hne hj)]
    exact h.present j hj
  · intro j hj
    rw [hother (ne_of_not_mem_cons hj)]
    exact h.absent j (not_mem_of_not_mem_cons hj)
  · intro j
    by_cases hj : j = w.ifaceCount
    · subst hj
      rw [if_neg fun hc => hc.2.1 mem_cons_self]
      exact (h.deleted _).trans (if_neg fun hc => Nat.lt_irrefl _ hc.1)
    · have hlt : j < w.ifaceCount + 1 ↔ j < w.ifaceCount := by omega
      have hmem : j ∈ w.ifaceCount :: w.stateInterfaces ↔ j ∈ w.stateInterfaces :=
        ⟨fun hm => (mem_cons.mp hm).resolve_left hj, mem_cons_of_mem _⟩
      rw [hother hj]
      exact (h.deleted j).trans (by simp only [lifeStep, hlt, hmem])
  · refine forall_mem_cons.mpr ⟨?_, fun j hj => ?_⟩
    · rw [hself]
      exact ⟨h.treesFresh _ (Nat.le_refl _),
        (h.treesOut _ h.fresh).2.1.trans (h.treesFresh _ (Nat.le_refl _))⟩
    · rw [hother (hne hj)]
      exact h.treesIn j hj
  · intro j hj
    rw [hother (ne_of_not_mem_cons hj)]
    exact h.treesOut j (not_mem_of_not_mem_cons hj)
  · exact fun j hj => h.treesFresh j (Nat.le_of_succ_le hj)

theorem lifeInv_compile (name : String)
    (hsends : ∀ i ∈ sendInterfaces actions, i ∈ w.stateInterfaces) :
    LifeInv (lifeStep w (.compile name actions)).1 := by
  have hother {p : Nat} (hp : p ≠ w.pipeCount) :
      (lifeStep w (.compile name actions)).1.pipes p = w.pipes p := update_of_ne hp ..
  have hself : (lifeStep w (.compile name actions)).1.pipes w.pipeCount = ⟨name, 1, actions⟩ :=
    update_self ..
  have hattached : (lifeStep w (.compile name actions)).1.attached = w.attached := rfl
  have hfresh : w.pipeCount ∉ w.attached := fun hmem => Nat.lt_irrefl _ (h.streamed _ hmem)
  have hcache : w.pipeCount ∉ w.pipeCache := fun hmem => Nat.lt_irrefl _ (h.compiled _ hmem)
  have hsame {p : Nat} (hp : p ≠ w.pipeCount) :
      (lifeStep w (.compile name actions)).1.sends p = w.sends p := by
    rw [sends, hother hp, sends]
  have hnew :
      (lifeStep w (.compile name actions)).1.sends w.pipeCount = sendInterfaces actions := by
    rw [sends, hself]
  have hflat : w.attached.flatMap (lifeStep w (.compile name actions)).1.sends =
      w.attached.flatMap w.sends :=
    flatMap_congr fun p hp => hsame fun heq => hfresh (heq ▸ hp)
  refine ⟨h.registered, h.allocated, ?_, ?_, ?_, ?_, ?_, ?_, ?_, h.present, h.absent, h.deleted,
    h.treesIn, h.treesOut, h.treesFresh⟩
  · exact forall_mem_cons.mpr
      ⟨Nat.lt_succ_self _, fun p hp => Nat.lt_succ_of_lt (h.compiled p hp)⟩
  · exact fun p hp => Nat.lt_succ_of_lt (h.streamed p hp)
  · intro p
    rw [hattached]
    by_cases hp : p = w.pipeCount
    · subst hp
      have hzero := count_eq_zero.mpr hcache
      have hzero' := count_eq_zero.mpr hfresh
      rw [hself, hzero']
      simp only [lifeStep, count_cons_self, hzero]
      rfl
    · rw [hother hp]
      simp only [lifeStep, count_cons_of_ne (Ne.symm hp)]
      exact h.references p
  · intro p hp
    by_cases hpc : p = w.pipeCount
    · rw [hattached, hpc, count_eq_zero.mpr hfresh]
      exact Nat.zero_le _
    · exact h.once p (hsame hpc ▸ hp)
  · intro p
    by_cases hp : p = w.pipeCount
    · rw [hp, hnew]
      exact fun i hi => h.allocated i (hsends i hi)
    · rw [hsame hp]
      exact h.known p
  · refine forall_mem_cons.mpr ⟨fun _ => ?_, fun p hp hnot => ?_⟩
    · rw [hnew]
      exact hsends
    · rw [hsame fun heq => hcache (heq ▸ hp)]
      exact h.waiting p hp hnot
  · intro i
    rw [hattached, hflat]
    exact h.senders i

theorem AttachedTo.attached_perm (hv : AttachedTo w i p v) (hi : i ∈ w.stateInterfaces) :
    v.attached ~ p :: w.attached := by
  rw [attached, attached, hv.stateInterfaces]
  refine flatMap_append_perm h.registered hi ?_ fun j hj => ?_
  · rw [streams, hv.own]
    rfl
  · rw [streams, hv.others j hj, streams]

/-- A pipeline that is not attached only sends on interfaces in the table, so no other one
gets a sender. -/
theorem AttachedTo.senders_out (hv : AttachedTo w i p v) (hp : p ∈ w.pipeCache)
    (honce : w.sends p = [] ∨ p ∉ w.attached) (hj : j ∉ w.stateInterfaces) :
    (v.ifaces j).senderCount = (w.ifaces j).senderCount := by
  have hin : ∀ j ∈ w.sends p, j ∈ w.stateInterfaces := by
    obtain hempty | hnot := honce
    · rw [hempty]
      exact forall_mem_nil _
    · exact h.waiting p hp hnot
  rw [hv.senders j, count_eq_zero.mpr fun hmem => hj (hin j hmem), Int.natCast_zero,
    Int.add_zero]

omit h in
theorem AttachedTo.count_log (hv : AttachedTo w i p v) (hm : m ≠ .newParsetree i) :
    v.log.count m = w.log.count m := by
  rw [hv.log]
  exact count_joined_log w p hm

theorem AttachedTo.newParsetree (hv : AttachedTo w i p v) (hi : i ∈ w.stateInterfaces) :
    v.log.count (.newParsetree i) = 1 := by
  have hold := (h.treesIn i hi).1
  rw [hv.log, joined]
  grind

theorem AttachedTo.treesIn (hv : AttachedTo w i p v) (hi : i ∈ w.stateInterfaces)
    (hj : j ∈ w.stateInterfaces) :
    v.log.count (.newParsetree j) = (if (v.ifaces j).parsetree = none then 0 else 1) ∧
      v.log.count (.deleteParsetree j) = 0 := by
  obtain ⟨hold, hgone⟩ := h.treesIn j hj
  have hmark : LifeMark.deleteParsetree j ≠ .newParsetree i := nofun
  refine ⟨?_, (hv.count_log hmark).trans hgone⟩
  by_cases hji : j = i
  · rw [hji, hv.newParsetree h hi, hv.own]
    rfl
  · rw [hv.count_log fun heq => hji (LifeMark.newParsetree.inj heq), hv.others j hji]
    exact hold

theorem AttachedTo.inv (hv : AttachedTo w i p v) (hi : i ∈ w.stateInterfaces) (hp : p ∈ w.pipeCache)
    (honce : w.sends p = [] ∨ p ∉ w.attached) : LifeInv v := by
  have hattached := hv.attached_perm h hi
  have hne {j : Nat} (hj : j ∉ w.stateInterfaces) : j ≠ i := fun heq => hj (heq ▸ hi)
  have hnewTree {j : Nat} (hj : j ≠ i) :
      v.log.count (.newParsetree j) = w.log.count (.newParsetree j) :=
    hv.count_log fun heq => hj (LifeMark.newParsetree.inj heq)
  refine ⟨hv.stateInterfaces ▸ h.registered, ?_, ?_, fun q hq => ?_, fun q => ?_, fun q hq => ?_,
    ?_, ?_, fun j => ?_, ?_, ?_, fun j => ?_, ?_, ?_, ?_⟩
  · rw [hv.stateInterfaces, hv.ifaceCount]
    exact h.allocated
  · rw [hv.pipeCache, hv.pipeCount]
    exact h.compiled
  · rw [hv.pipeCount]
    obtain rfl | hq := mem_cons.mp (hattached.mem_iff.mp hq)
    · exact h.compiled q hp
    · exact h.streamed q hq
  · have hcount := h.references q
    rw [hv.references q, hv.pipeCache, hattached.count_eq]
    grind
  · rw [hv.sends] at hq
    rw [hattached.count_eq]
    by_cases hqp : q = p
    · subst hqp
      have hzero := count_eq_zero.mpr (honce.resolve_left hq)
      rw [count_cons_self]
      omega
    · rw [count_cons_of_ne (Ne.symm hqp)]
      exact h.once q hq
  · rw [hv.sends, hv.ifaceCount]
    exact h.known
  · rw [hv.pipeCache, hv.sends, hv.stateInterfaces]
    refine fun q hq hnot => h.waiting q hq fun hmem => hnot ?_
    exact hattached.mem_iff.mpr (mem_cons_of_mem p hmem)
  · rw [hv.senders j, hv.sends, (hattached.flatMap_right w.sends).count_eq, flatMap_cons,
      count_append, h.senders j, Int.natCast_add, Int.add_comm]
  · rw [hv.stateInterfaces]
    exact fun j hj => (hv.ifaceReferences j).trans (h.present j hj)
  · rw [hv.stateInterfaces]
    intro j hj
    rw [hv.senders_out h hp honce hj, hv.ifaceReferences j, hv.others j (hne hj)]
    exact h.absent j hj
  · have hmark : LifeMark.deleteInterface j ≠ .newParsetree i := nofun
    rw [hv.count_log hmark, hv.stateInterfaces, hv.ifaceCount, h.deleted j]
    by_cases hj : j ∈ w.stateInterfaces
    · rw [if_neg fun hc => hc.2.1 hj, if_neg fun hc => hc.2.1 hj]
    · rw [hv.senders_out h hp honce hj]
  · rw [hv.stateInterfaces]
    exact fun j hj => hv.treesIn h hi hj
  · rw [hv.stateInterfaces]
    intro j hj
    have hmark : LifeMark.deleteParsetree j ≠ .newParsetree i := nofun
    rw [hv.count_log hmark, hnewTree (hne hj), hv.senders_out h hp honce hj]
    exact h.treesOut j hj
  · rw [hv.ifaceCount]
    intro j hj
    have hji : j ≠ i := fun heq => Nat.not_lt.mpr hj (heq ▸ h.allocated i hi)
    exact (hnewTree hji).trans (h.treesFresh j hj)

/-- A pipeline that is dropped lives on in a parse tree, or has nothing to release. -/
theorem unref_dropped (fuel : Nat) (hp : p ∈ w.pipeCache)
    (hattached : w.sends p = [] ∨ p ∈ w.attached) :
    pipelineUnref (fuel + 1) { w with pipeCache := w.pipeCache.erase p } p =
      ({ w with pipeCache := w.pipeCache.erase p } : Lifetimes).lowered p := by
  rw [pipelineUnref_succ]
  split_ifs with hzero
  · obtain hempty | hattached := hattached
    · rw [releaseOrder_eq_nil hempty, foldl_nil]
    · have hcached := count_pos_iff.mpr hp
      have hpos := count_pos_iff.mpr hattached
      have hcount := h.references p
      dsimp only at hzero
      omega
  · rfl

theorem lifeInv_drop (hp : p ∈ w.pipeCache) (hattached : w.sends p = [] ∨ p ∈ w.attached) :
    LifeInv (pipelineUnref (w.pipeCount + 1) { w with pipeCache := w.pipeCache.erase p } p) := by
  rw [unref_dropped h w.pipeCount hp hattached]
  have hshape := sameShape_lowered { w with pipeCache := w.pipeCache.erase p } p
  have hsends : (({ w with pipeCache := w.pipeCache.erase p } : Lifetimes).lowered p).sends =
      w.sends := funext fun q => congrArg sendInterfaces (hshape.actions q)
  refine ⟨h.registered, h.allocated, ?_, h.streamed, ?_, ?_, ?_, ?_, ?_, h.present, h.absent,
    h.deleted, h.treesIn, h.treesOut, h.treesFresh⟩
  · exact fun q hq => h.compiled q (mem_of_mem_erase hq)
  · intro q
    have hcount := h.references q
    by_cases hq : q = p
    · subst hq
      have hpos := count_pos_iff.mpr hp
      simp only [lowered, setPipe, update_self, count_erase_self]
      change _ = ((_ + w.attached.count q : Nat) : Int)
      omega
    · simp only [lowered, setPipe, update_of_ne hq, count_erase_of_ne hq]
      exact hcount
  · rw [hsends]
    exact h.once
  · rw [hsends]
    exact h.known
  · rw [hsends]
    exact fun q hq hnot => h.waiting q (mem_of_mem_erase hq) hnot
  · intro j
    rw [hsends]
    exact h.senders j

end Steps

end Dnt
