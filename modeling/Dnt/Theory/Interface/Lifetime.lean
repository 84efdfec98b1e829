import Dnt.Theory.Interface.Counts

/-!
# Lifetimes in Histories

Removing an interface takes down its parse tree, and with it the pipelines that were
attached to nothing else. These may have been the last ones to send on an interface
that was removed before, which is deleted then.

If somebody still sends on the interface, its parse tree goes too early. If this is one
of its own streams, the interface is deleted from within, and its parse tree for a
second time. All else that can go wrong comes from pipelines that are attached twice or
not at all.

## Main definitions

* `Unwinding`: The state while the parse tree of an interface is taken down.
* `Removed`: What is left when an interface has been removed.
* `carefulHistory`, `sharedPipeline`, `selfSender`, `neverAttached`, `earlyTree`: A
  careful history, and four that are not.

## Theorems

* `ifaceDelSender_unwinding`: What the loss of a sender does on the way.
* `removed_ifaceUnref`: What removing an interface leaves.
* `lifeInv_step`: A careful step keeps the invariant.
* `lifeRun_right`: In a careful history every state is right.
-/

namespace Dnt

open Function Lifetimes

open Mealy

open List

/-! ## Taking down a parse tree

The parse tree of the interface is taken down stream by stream. What is not yet done is
kept in two lists: the streams to be released, and the interfaces that a pipeline
has yet to release. -/

/-- The state between two steps, compared with the one at the beginning. -/
structure Unwinding (w₀ : Lifetimes) (i : Nat) (streams pending : List Nat) (w : Lifetimes) :
    Prop where
  shape : SameShape w₀ w
  references : ∀ p, (w.pipes p).referenceCount =
    (w₀.pipeCache.count p + (w₀.attached ++ streams).count p : Nat)
  senders : ∀ j, (w.ifaces j).senderCount =
    (((w₀.attached ++ streams).flatMap w₀.sends).count j + pending.count j : Nat)
  deleted : ∀ j, j ≠ i → w.log.count (.deleteInterface j) =
    if j < w₀.ifaceCount ∧ j ∉ w₀.stateInterfaces ∧ (w.ifaces j).senderCount = 0 then 1 else 0
  own : w.log.count (.deleteInterface i) = 0
  newTrees : ∀ j, w.log.count (.newParsetree j) = w₀.log.count (.newParsetree j)
  deletedTrees : ∀ j, w.log.count (.deleteParsetree j) = w₀.log.count (.deleteParsetree j)

/-- What it takes for this to go well: the streams are attached once and were dropped, and
none of them sends on the interface itself. -/
structure Unwindable (w₀ : Lifetimes) (i : Nat) (streams : List Nat) : Prop where
  once : ∀ p, w₀.sends p ≠ [] → (w₀.attached ++ streams).count p ≤ 1
  released : ∀ p ∈ streams, w₀.sends p ≠ [] → p ∉ w₀.pipeCache
  known : ∀ p ∈ streams, ∀ j ∈ w₀.sends p, j < w₀.ifaceCount
  present : ∀ j ∈ w₀.stateInterfaces, (w₀.ifaces j).referenceCount = 1
  absent : ∀ j, j ∉ w₀.stateInterfaces → (w₀.ifaces j).referenceCount = 0 ∧
    (j ≠ i → (w₀.ifaces j).parsetree = none ∨ j ∉ streams.flatMap w₀.sends)
  own : i ∉ streams.flatMap w₀.sends

def Lifetimes.unsent (w : Lifetimes) (j : Nat) : Lifetimes :=
  w.setIface j { w.ifaces j with senderCount := (w.ifaces j).senderCount - 1 }

@[simp] theorem unsent_ifaces_self (w : Lifetimes) (j : Nat) : (w.unsent j).ifaces j =
    { w.ifaces j with senderCount := (w.ifaces j).senderCount - 1 } := update_self ..

variable {m : LifeMark} {i j : Nat}

theorem unsent_ifaces_of_ne (w : Lifetimes) {k : Nat} (hk : k ≠ j) :
    (w.unsent j).ifaces k = w.ifaces k := update_of_ne hk ..

theorem count_mark_self (w : Lifetimes) (m : LifeMark) :
    (w.mark m).log.count m = w.log.count m + 1 := by
  rw [mark, count_append, count_singleton_self]

theorem count_mark_of_ne {w : Lifetimes} {m' : LifeMark} (hm : m ≠ m') :
    (w.mark m).log.count m' = w.log.count m' := by
  rw [mark, count_append, count_singleton, if_neg (mt beq_iff_eq.mp hm),
    Nat.add_zero]

section Unwind

variable {w₀ w : Lifetimes} {i : Nat} {all streams pending : List Nat}
  (h₀ : Unwindable w₀ i all)

include h₀

/-- An interface that loses its last sender on the way has no parse tree any more, and is
not the one whose parse tree is taken down. -/
theorem ifaceDelSender_unwinding (u : Lifetimes → Nat → Lifetimes)
    (h : Unwinding w₀ i streams (j :: pending) w) (hj : j ∈ all.flatMap w₀.sends) :
    if (w.ifaces j).senderCount - 1 = 0 ∧ j ∉ w₀.stateInterfaces then
      j ≠ i ∧ ifaceDelSender u w j = (w.unsent j).mark (.deleteInterface j)
    else ifaceDelSender u w j = w.unsent j := by
  have hreferences : ((w.unsent j).ifaces j).referenceCount = (w₀.ifaces j).referenceCount := by
    rw [unsent_ifaces_self, h.shape.references j]
  by_cases hzero : (w.ifaces j).senderCount - 1 = 0
  · by_cases hin : j ∈ w₀.stateInterfaces
    · rw [if_neg fun hc => hc.2 hin]
      have hpos : ((w.unsent j).ifaces j).referenceCount > 0 := by
        rw [hreferences, h₀.present j hin]
        decide
      exact (if_pos hzero).trans (if_pos hpos)
    · rw [if_pos ⟨hzero, hin⟩]
      have hne : j ≠ i := fun heq => h₀.own (heq ▸ hj)
      obtain ⟨hnone, htree⟩ := h₀.absent j hin
      have hparsetree : ((w.unsent j).ifaces j).parsetree = none := by
        rw [unsent_ifaces_self]
        exact (h.shape.parsetree j).trans ((htree hne).resolve_right (not_not.mpr hj))
      have hnotPos : ¬ ((w.unsent j).ifaces j).referenceCount > 0 := by
        rw [hreferences, hnone]
        decide
      refine ⟨hne, (if_pos hzero).trans ((if_neg hnotPos).trans ?_)⟩
      change deleteInterface u (w.unsent j) j = _
      rw [deleteInterface, deleteParsetree, hparsetree]
  · rw [if_neg fun hc => hzero hc.1]
    exact if_neg hzero

omit h₀ in
theorem Unwinding.senders_unsent (h : Unwinding w₀ i streams (j :: pending) w) (k : Nat) :
    ((w.unsent j).ifaces k).senderCount =
      (((w₀.attached ++ streams).flatMap w₀.sends).count k + pending.count k : Nat) := by
  have hsenders := h.senders k
  by_cases hk : k = j
  · subst hk
    rw [count_cons_self] at hsenders
    rw [unsent_ifaces_self]
    dsimp only
    omega
  · rw [count_cons_of_ne (Ne.symm hk)] at hsenders
    rw [unsent_ifaces_of_ne w hk]
    exact hsenders

theorem Unwinding.delSender (u : Lifetimes → Nat → Lifetimes)
    (h : Unwinding w₀ i streams (j :: pending) w) (hj : j ∈ all.flatMap w₀.sends) :
    Unwinding w₀ i streams pending (ifaceDelSender u w j) := by
  have hshape : SameShape w₀ (w.unsent j) := h.shape.trans (sameShape_setSenderCount w j _)
  have hlt : j < w₀.ifaceCount := by
    obtain ⟨p, hp, hsend⟩ := mem_flatMap.mp hj
    exact h₀.known p hp j hsend
  -- the interface has had a sender so far
  have hbefore (hji : j ≠ i) : w.log.count (.deleteInterface j) = 0 := by
    have hsenders := h.senders j
    rw [count_cons_self] at hsenders
    exact (h.deleted j hji).trans (if_neg fun hc => by omega)
  have hstep := ifaceDelSender_unwinding h₀ u h hj
  split_ifs at hstep with hlast
  · obtain ⟨hji, heq⟩ := hstep
    rw [heq]
    refine ⟨hshape.trans (sameShape_mark _ _), h.references, h.senders_unsent, fun k hk => ?_, ?_,
      fun k => ?_, fun k => ?_⟩
    · by_cases hkj : k = j
      · subst hkj
        have hnew : (((w.unsent k).mark (.deleteInterface k)).ifaces k).senderCount = 0 :=
          (congrArg InterfaceObj.senderCount (unsent_ifaces_self w k)).trans hlast.1
        rw [count_mark_self, if_pos ⟨hlt, hlast.2, hnew⟩]
        exact congrArg (· + 1) (hbefore hji)
      · have hold : ((w.unsent j).mark (.deleteInterface j)).ifaces k = w.ifaces k :=
          unsent_ifaces_of_ne w hkj
        rw [hold, count_mark_of_ne fun hc => hkj (LifeMark.deleteInterface.inj hc).symm]
        exact h.deleted k hk
    · rw [count_mark_of_ne fun hc => hji (LifeMark.deleteInterface.inj hc)]
      exact h.own
    · have hmark : LifeMark.deleteInterface j ≠ .newParsetree k := nofun
      exact (count_mark_of_ne hmark).trans (h.newTrees k)
    · have hmark : LifeMark.deleteInterface j ≠ .deleteParsetree k := nofun
      exact (count_mark_of_ne hmark).trans (h.deletedTrees k)
  · rw [hstep]
    refine ⟨hshape, h.references, h.senders_unsent, fun k hk => ?_, h.own, h.newTrees,
      h.deletedTrees⟩
    by_cases hkj : k = j
    · subst hkj
      rw [unsent_ifaces_self, if_neg fun hc => hlast ⟨hc.2.2, hc.2.1⟩]
      exact hbefore hk
    · rw [unsent_ifaces_of_ne w hkj]
      exact h.deleted k hk

theorem Unwinding.foldl_delSender (u : Lifetimes → Nat → Lifetimes)
    (h : Unwinding w₀ i streams pending w) (hpending : ∀ j ∈ pending, j ∈ all.flatMap w₀.sends) :
    Unwinding w₀ i streams [] (pending.foldl (ifaceDelSender u) w) := by
  induction pending generalizing w with
  | nil => exact h
  | cons j pending ih =>
    obtain ⟨hj, hpending⟩ := forall_mem_cons.mp hpending
    exact ih (h.delSender h₀ u hj) hpending

theorem Unwinding.unref {q : Nat} (fuel : Nat) (h : Unwinding w₀ i (q :: streams) [] w)
    (hall : (q :: streams).Sublist all) :
    Unwinding w₀ i streams [] (pipelineUnref (fuel + 1) w q) := by
  have hq : q ∈ all := hall.subset mem_cons_self
  have hrefs := h.references q
  have hcons (p : Nat) : (w₀.attached ++ q :: streams).count p =
      (q :: (w₀.attached ++ streams)).count p := perm_middle.count_eq p
  have hflat (j : Nat) : ((w₀.attached ++ q :: streams).flatMap w₀.sends).count j =
      (w₀.sends q).count j + ((w₀.attached ++ streams).flatMap w₀.sends).count j := by
    rw [(perm_middle.flatMap_right w₀.sends).count_eq, flatMap_cons, count_append]
  have hlowered (p : Nat) : ((w.lowered q).pipes p).referenceCount =
      (w₀.pipeCache.count p + (w₀.attached ++ streams).count p : Nat) := by
    have hp := h.references p
    rw [hcons] at hp
    by_cases hpq : p = q
    · subst hpq
      rw [count_cons_self] at hp
      simp only [lowered, setPipe, update_self]
      omega
    · rw [count_cons_of_ne (Ne.symm hpq)] at hp
      simp only [lowered, setPipe, update_of_ne hpq]
      exact hp
  have hshape := h.shape.trans (sameShape_lowered w q)
  rw [pipelineUnref_succ]
  split_ifs with hzero
  · have hperm : releaseOrder (w.pipes q).actions ~ w₀.sends q := by
      rw [h.shape.actions q]
      exact releaseOrder_perm _
    refine Unwinding.foldl_delSender h₀ _ ⟨hshape, hlowered, fun j => ?_, h.deleted, h.own,
      h.newTrees, h.deletedTrees⟩ fun j hj => ?_
    · have hsenders := h.senders j
      rw [hflat, count_nil] at hsenders
      rw [hperm.count_eq]
      change (w.ifaces j).senderCount = _
      omega
    · exact mem_flatMap.mpr ⟨q, hq, hperm.mem_iff.mp hj⟩
  · -- a pipeline that lives on is attached elsewhere, or has not been dropped
    have hempty : w₀.sends q = [] := by
      by_contra hne
      have hone := Nat.le_trans ((hall.append_left w₀.attached).count_le q) (h₀.once q hne)
      have hcache := count_eq_zero.mpr (h₀.released q hq hne)
      rw [hcons, count_cons_self] at hrefs hone
      omega
    refine ⟨hshape, hlowered, fun j => ?_, h.deleted, h.own, h.newTrees, h.deletedTrees⟩
    have hsenders := h.senders j
    rw [hflat, hempty, count_nil, Nat.zero_add] at hsenders
    exact hsenders

theorem Unwinding.foldl_unref (fuel : Nat) (h : Unwinding w₀ i streams [] w)
    (hall : streams.Sublist all) :
    Unwinding w₀ i [] [] (streams.foldl (pipelineUnref (fuel + 1)) w) := by
  induction streams generalizing w with
  | nil => exact h
  | cons q streams ih =>
    exact ih (h.unref h₀ fuel hall) ((sublist_cons_self q streams).trans hall)

end Unwind

/-! ## Removing an interface -/

/-- The interface is out of the table and has no reference. -/
def Lifetimes.removed (w : Lifetimes) (i : Nat) : Lifetimes :=
  ({ w with stateInterfaces := w.stateInterfaces.erase i } : Lifetimes).unreferenced i

theorem removed_ifaces_self (w : Lifetimes) (i : Nat) : (w.removed i).ifaces i =
    { w.ifaces i with referenceCount := (w.ifaces i).referenceCount - 1 } :=
  update_self ..

theorem removed_ifaces_of_ne (w : Lifetimes) (hj : j ≠ i) :
    (w.removed i).ifaces j = w.ifaces j := update_of_ne hj ..

theorem removed_streams (w : Lifetimes) (i : Nat) : (w.removed i).streams = w.streams := by
  grind [streams, removed_ifaces_self, removed_ifaces_of_ne]

def closingMarks (i : Nat) (tree : Option (List Nat)) (senderCount : Int) : List LifeMark :=
  (if tree = none then [] else [.deleteParsetree i]) ++
    (if senderCount = 0 then [.deleteInterface i] else [])

/-- The streams of an interface are gone, and so may be its parse tree or all of it. -/
def Lifetimes.closed (x : Lifetimes) (i : Nat) (tree : Option (List Nat))
    (marks : List LifeMark) : Lifetimes :=
  { x.setIface i { x.ifaces i with parsetree := tree } with log := x.log ++ marks }

variable {v : Lifetimes}

theorem closed_ifaces_self (x : Lifetimes) (i : Nat) (tree : Option (List Nat))
    (marks : List LifeMark) :
    (x.closed i tree marks).ifaces i = { x.ifaces i with parsetree := tree } :=
  update_self ..

theorem closed_ifaces_of_ne (x : Lifetimes) (hj : j ≠ i) (tree : Option (List Nat))
    (marks : List LifeMark) : (x.closed i tree marks).ifaces j = x.ifaces j :=
  update_of_ne hj ..

theorem count_closed (x : Lifetimes) (i : Nat) (tree tree' : Option (List Nat)) (senderCount : Int)
    (hm : m ≠ .deleteParsetree i) (hm' : m ≠ .deleteInterface i) :
    (x.closed i tree' (closingMarks i tree senderCount)).log.count m = x.log.count m := by
  have hzero : (closingMarks i tree senderCount).count m = 0 := by
    refine count_eq_zero.mpr fun hmem => ?_
    unfold closingMarks at hmem
    split_ifs at hmem <;> simp_all
  rw [closed, count_append, hzero, Nat.add_zero]

theorem count_closed_parsetree (x : Lifetimes) (i : Nat) (tree tree' : Option (List Nat))
    (senderCount : Int) :
    (x.closed i tree' (closingMarks i tree senderCount)).log.count (.deleteParsetree i) =
      x.log.count (.deleteParsetree i) + if tree = none then 0 else 1 := by
  rw [closed, count_append, closingMarks]
  split_ifs <;> simp

theorem count_closed_interface (x : Lifetimes) (i : Nat) (tree tree' : Option (List Nat))
    (senderCount : Int) :
    (x.closed i tree' (closingMarks i tree senderCount)).log.count (.deleteInterface i) =
      x.log.count (.deleteInterface i) + if senderCount = 0 then 1 else 0 := by
  rw [closed, count_append, closingMarks]
  split_ifs <;> simp

/-- What is left when an interface has been removed. -/
structure Removed (w : Lifetimes) (i : Nat) (v : Lifetimes) : Prop where
  stateInterfaces : v.stateInterfaces = w.stateInterfaces.erase i
  pipeCache : v.pipeCache = w.pipeCache
  ifaceCount : v.ifaceCount = w.ifaceCount
  pipeCount : v.pipeCount = w.pipeCount
  sends : v.sends = w.sends
  references : ∀ p, (v.pipes p).referenceCount =
    (w.pipeCache.count p + (w.removed i).attached.count p : Nat)
  senders : ∀ j, (v.ifaces j).senderCount =
    (((w.removed i).attached.flatMap w.sends).count j : Nat)
  others : ∀ j, j ≠ i → (v.ifaces j).referenceCount = (w.ifaces j).referenceCount ∧
    (v.ifaces j).parsetree = (w.ifaces j).parsetree
  own : (v.ifaces i).referenceCount = (w.ifaces i).referenceCount - 1 ∧
    ((v.ifaces i).parsetree = none ∨ (v.ifaces i).senderCount = 0)
  deleted : ∀ j, v.log.count (.deleteInterface j) =
    if j < w.ifaceCount ∧ j ∉ w.stateInterfaces.erase i ∧ (v.ifaces j).senderCount = 0 then 1 else 0
  newTrees : ∀ j, v.log.count (.newParsetree j) = w.log.count (.newParsetree j)
  deletedTrees : ∀ j, j ≠ i → v.log.count (.deleteParsetree j) = w.log.count (.deleteParsetree j)
  ownTree : v.log.count (.deleteParsetree i) =
    w.log.count (.deleteParsetree i) + if (w.ifaces i).parsetree = none then 0 else 1

theorem deleteParsetree_eq (u : Lifetimes → Nat → Lifetimes) (w : Lifetimes) (i : Nat) :
    deleteParsetree u w i = { (w.streams i).foldl u w with
      log := ((w.streams i).foldl u w).log ++
        if (w.ifaces i).parsetree = none then [] else [.deleteParsetree i] } := by
  unfold deleteParsetree streams
  cases (w.ifaces i).parsetree with
  | none =>
    simp
  | some streams =>
    simp only [Option.getD_some, reduceCtorEq, if_false]
    rfl

section Remove

variable {w : Lifetimes} (h : LifeInv w) {i : Nat} (hi : i ∈ w.stateInterfaces)
  (hcareful : Careful w (.remove i))

include hi in
/-- The streams that were attached are those that still are, and those of the interface. -/
theorem attached_perm_removed : w.attached ~ (w.removed i).attached ++ w.streams i := by
  have herase := (perm_cons_erase hi).flatMap_right w.streams
  rw [flatMap_cons] at herase
  rw [attached, attached, removed_streams]
  exact herase.trans perm_append_comm

theorem mem_removed_iff (hj : j ≠ i) : j ∈ (w.removed i).stateInterfaces ↔ j ∈ w.stateInterfaces :=
  mem_erase_of_ne hj

include h in
theorem not_mem_removed : i ∉ (w.removed i).stateInterfaces :=
  h.registered.not_mem_erase

include h hi hcareful

theorem unwindable_removed : Unwindable (w.removed i) i (w.streams i) := by
  obtain ⟨-, hdropped, hself⟩ := hcareful hi
  have hperm := attached_perm_removed hi
  refine ⟨fun p hp => ?_, fun p hp hne hcache => hne (hdropped p hcache hp),
    fun p _ => h.known p, fun j hj => ?_, fun j hj => ?_, ?_⟩
  · rw [← hperm.count_eq]
    exact h.once p hp
  · have hji : j ≠ i := fun heq => not_mem_removed h (heq ▸ hj)
    rw [removed_ifaces_of_ne w hji]
    exact h.present j ((mem_removed_iff hji).mp hj)
  · by_cases hji : j = i
    · subst hji
      rw [removed_ifaces_self, h.present j hi]
      exact ⟨rfl, fun hc => absurd rfl hc⟩
    · rw [removed_ifaces_of_ne w hji]
      obtain ⟨hnone, htree⟩ := h.absent j fun hmem => hj ((mem_removed_iff hji).mpr hmem)
      refine ⟨hnone, fun _ => htree.imp_right fun hzero hmem => ?_⟩
      -- a sender among the streams would have been counted
      rw [h.senders j, Int.natCast_eq_zero, count_eq_zero,
        (hperm.flatMap_right w.sends).mem_iff, flatMap_append] at hzero
      exact hzero (mem_append_right _ hmem)
  · intro hmem
    obtain ⟨p, hp, hsend⟩ := mem_flatMap.mp hmem
    obtain hnone | hunsent := hself
    · rw [streams, hnone] at hp
      exact not_mem_nil hp
    · exact hunsent p (hperm.mem_iff.mpr (mem_append_right _ hp)) hsend

omit hcareful in
theorem unwinding_removed : Unwinding (w.removed i) i (w.streams i) [] (w.removed i) := by
  have hperm := attached_perm_removed hi
  refine ⟨SameShape.refl _, fun p => ?_, fun j => ?_, fun j hj => ?_, ?_, fun _ => rfl,
    fun _ => rfl⟩
  · rw [← hperm.count_eq]
    exact h.references p
  · have hsenders : ((w.removed i).ifaces j).senderCount = (w.ifaces j).senderCount := by
      by_cases hj : j = i
      · rw [hj, removed_ifaces_self]
      · rw [removed_ifaces_of_ne w hj]
    rw [hsenders, h.senders j, (hperm.flatMap_right w.sends).count_eq, count_nil, Nat.add_zero]
    rfl
  · have hmem := mem_removed_iff (w := w) hj
    simp only [removed_ifaces_of_ne w hj, hmem]
    exact h.deleted j
  · exact (h.deleted i).trans (if_neg fun hc => hc.2.1 hi)

/-- If somebody sends on the interface, somebody still does when its parse tree is gone. -/
theorem senders_removed (hpos : (w.ifaces i).senderCount > 0) :
    i ∈ (w.removed i).attached.flatMap w.sends := by
  have hperm := attached_perm_removed hi
  rw [h.senders i, gt_iff_lt, Int.natCast_pos, count_pos_iff,
    (hperm.flatMap_right w.sends).mem_iff, flatMap_append, mem_append] at hpos
  exact hpos.resolve_right (unwindable_removed h hi hcareful).own

omit hcareful in
theorem removed_closed {x : Lifetimes} (hx : Unwinding (w.removed i) i [] [] x)
    {tree : Option (List Nat)} (htree : tree = none ∨ (x.ifaces i).senderCount = 0) : Removed w i
      (x.closed i tree (closingMarks i (w.ifaces i).parsetree (x.ifaces i).senderCount)) := by
  have hself := closed_ifaces_self x i tree
    (closingMarks i (w.ifaces i).parsetree (x.ifaces i).senderCount)
  have hother {j : Nat} (hj : j ≠ i) := closed_ifaces_of_ne x hj tree
    (closingMarks i (w.ifaces i).parsetree (x.ifaces i).senderCount)
  have hsenders (j : Nat) : ((x.closed i tree (closingMarks i (w.ifaces i).parsetree
      (x.ifaces i).senderCount)).ifaces j).senderCount = (x.ifaces j).senderCount := by
    by_cases hj : j = i
    · rw [hj, hself]
    · rw [hother hj]
  have hcount (m : LifeMark) := count_closed x i (w.ifaces i).parsetree tree
    (x.ifaces i).senderCount (m := m)
  refine ⟨hx.shape.stateInterfaces, hx.shape.pipeCache, hx.shape.ifaceCount, hx.shape.pipeCount,
    funext fun p => congrArg sendInterfaces (hx.shape.actions p), fun p => ?_, fun j => ?_,
    fun j hj => ?_, ?_, fun j => ?_, fun j => ?_, fun j hj => ?_, ?_⟩
  · have hrefs := hx.references p
    rwa [append_nil] at hrefs
  · have hsum := hx.senders j
    rw [append_nil, count_nil, Nat.add_zero] at hsum
    exact (hsenders j).trans hsum
  · rw [hother hj, hx.shape.references j, hx.shape.parsetree j, removed_ifaces_of_ne w hj]
    exact ⟨rfl, rfl⟩
  · rw [hself]
    refine ⟨(hx.shape.references i).trans ?_, htree⟩
    rw [removed_ifaces_self]
  · rw [hsenders j]
    by_cases hj : j = i
    · subst hj
      rw [count_closed_interface, hx.own, Nat.zero_add]
      have hlt := h.allocated j hi
      have hnot : j ∉ w.stateInterfaces.erase j := h.registered.not_mem_erase
      simp [hlt, hnot]
    · rw [hcount (.deleteInterface j) nofun fun hc => hj (LifeMark.deleteInterface.inj hc)]
      exact hx.deleted j hj
  · rw [hcount (.newParsetree j) nofun nofun]
    exact hx.newTrees j
  · rw [hcount (.deleteParsetree j) (fun hc => hj (LifeMark.deleteParsetree.inj hc)) nofun]
    exact hx.deletedTrees j
  · rw [count_closed_parsetree, hx.deletedTrees i]
    rfl

omit hcareful hi in
theorem Removed.attached_eq (hv : Removed w i v) : v.attached = (w.removed i).attached := by
  rw [attached, hv.stateInterfaces, attached, removed_streams]
  refine flatMap_congr fun j hj => ?_
  have hne : j ≠ i := fun heq => h.registered.not_mem_erase (heq ▸ hj)
  rw [streams, (hv.others j hne).2, streams]

omit hcareful in
theorem Removed.senders_le (hv : Removed w i v) (j : Nat) :
    (v.ifaces j).senderCount ≤ (w.ifaces j).senderCount := by
  rw [hv.senders j, h.senders j, ((attached_perm_removed hi).flatMap_right w.sends).count_eq,
    flatMap_append, count_append]
  omega

theorem waiting_removed (p : Nat) (hp : p ∈ w.pipeCache) (hnot : p ∉ (w.removed i).attached)
    (j : Nat) (hj : j ∈ w.sends p) : j ∈ w.stateInterfaces.erase i := by
  obtain ⟨hwaiting, hdropped, -⟩ := hcareful hi
  have hattached : p ∉ w.attached := by
    intro hin
    -- it would be a stream of the interface, and have been dropped
    have hown := (mem_append.mp ((attached_perm_removed hi).mem_iff.mp hin)).resolve_left hnot
    rw [hdropped p hp hown] at hj
    exact not_mem_nil hj
  have hji : j ≠ i := fun heq => hattached (hwaiting p hp (heq ▸ hj))
  exact (mem_erase_of_ne hji).mpr (h.waiting p hp hattached j hj)

omit hcareful in
theorem Removed.absent (hv : Removed w i v) (j : Nat) (hj : j ∉ w.stateInterfaces.erase i) :
    (v.ifaces j).referenceCount = 0 ∧
      ((v.ifaces j).parsetree = none ∨ (v.ifaces j).senderCount = 0) := by
  by_cases hji : j = i
  · rw [hji, hv.own.1, h.present i hi]
    exact ⟨rfl, hv.own.2⟩
  · obtain ⟨hreferences, htree⟩ := h.absent j fun hin => hj ((mem_erase_of_ne hji).mpr hin)
    rw [(hv.others j hji).1, (hv.others j hji).2]
    refine ⟨hreferences, htree.imp_right fun hzero => ?_⟩
    have hle := hv.senders_le h hi j
    have hnonneg := hv.senders j
    omega

/-- The parse tree of the interface goes now. If somebody sends on it, it had none. -/
theorem Removed.treesOut (hv : Removed w i v) (j : Nat) (hj : j ∉ w.stateInterfaces.erase i) :
    v.log.count (.newParsetree j) ≤ 1 ∧
      v.log.count (.deleteParsetree j) = v.log.count (.newParsetree j) ∧
      ((v.ifaces j).senderCount = 0 ∨ v.log.count (.newParsetree j) = 0) := by
  have hle := hv.senders_le h hi j
  have hnonneg := hv.senders j
  rw [hv.newTrees j]
  by_cases hji : j = i
  · subst hji
    obtain ⟨hnew, hgone⟩ := h.treesIn j hi
    rw [hv.ownTree, hnew, hgone, Nat.zero_add]
    refine ⟨?_, rfl, ?_⟩
    · split_ifs <;> omega
    · obtain hnone | hunsent := (hcareful hi).2.2
      · exact .inr (if_pos hnone)
      · have hzero : (w.attached.flatMap w.sends).count j = 0 := by
          rw [count_eq_zero, mem_flatMap]
          exact fun ⟨p, hp, hsend⟩ => hunsent p hp hsend
        rw [h.senders j, hzero] at hle
        exact .inl (by omega)
  · rw [hv.deletedTrees j hji]
    obtain ⟨hone, hdeleted, hnone⟩ := h.treesOut j fun hin => hj ((mem_erase_of_ne hji).mpr hin)
    exact ⟨hone, hdeleted, hnone.imp_left fun hzero => by omega⟩

theorem Removed.inv (hv : Removed w i v) : LifeInv v := by
  have hperm := attached_perm_removed hi
  have hattached := hv.attached_eq h
  have hne {j : Nat} (hj : j ∈ w.stateInterfaces.erase i) : j ≠ i :=
    fun heq => h.registered.not_mem_erase (heq ▸ hj)
  refine ⟨?_, ?_, ?_, ?_, ?_, ?_, ?_, ?_, ?_, ?_, ?_, ?_, ?_, ?_, ?_⟩
  · rw [hv.stateInterfaces]
    exact h.registered.erase i
  · rw [hv.stateInterfaces, hv.ifaceCount]
    exact fun j hj => h.allocated j (mem_of_mem_erase hj)
  · rw [hv.pipeCache, hv.pipeCount]
    exact h.compiled
  · rw [hattached, hv.pipeCount]
    exact fun p hp => h.streamed p (hperm.mem_iff.mpr (mem_append_left _ hp))
  · rw [hattached, hv.pipeCache]
    exact hv.references
  · intro p hp
    have hone := h.once p (hv.sends ▸ hp)
    rw [hperm.count_eq, count_append] at hone
    rw [hattached]
    omega
  · rw [hv.sends, hv.ifaceCount]
    exact h.known
  · rw [hv.pipeCache, hattached, hv.sends, hv.stateInterfaces]
    exact waiting_removed h hi hcareful
  · rw [hattached, hv.sends]
    exact hv.senders
  · rw [hv.stateInterfaces]
    intro j hj
    rw [(hv.others j (hne hj)).1]
    exact h.present j (mem_of_mem_erase hj)
  · rw [hv.stateInterfaces]
    exact hv.absent h hi
  · rw [hv.ifaceCount, hv.stateInterfaces]
    exact hv.deleted
  · rw [hv.stateInterfaces]
    intro j hj
    rw [hv.newTrees j, hv.deletedTrees j (hne hj), (hv.others j (hne hj)).2]
    exact h.treesIn j (mem_of_mem_erase hj)
  · rw [hv.stateInterfaces]
    exact hv.treesOut h hi hcareful
  · rw [hv.ifaceCount]
    exact fun j hj => (hv.newTrees j).trans (h.treesFresh j hj)

theorem removed_ifaceUnref :
    Removed w i (ifaceUnref { w with stateInterfaces := w.stateInterfaces.erase i } i) := by
  have hx := (unwinding_removed h hi).foldl_unref (unwindable_removed h hi hcareful) w.pipeCount
    (List.Sublist.refl _)
  have hpresent : (w.ifaces i).referenceCount - 1 = 0 := by
    rw [h.present i hi]
    rfl
  have htree : ((w.removed i).ifaces i).parsetree = (w.ifaces i).parsetree := by
    rw [removed_ifaces_self]
  rw [ifaceUnref_eq, if_pos hpresent]
  change Removed w i (if (w.ifaces i).senderCount > 0 then
      (deleteParsetree (pipelineUnref (w.pipeCount + 1)) (w.removed i) i).withoutTree i
    else deleteInterface (pipelineUnref (w.pipeCount + 1)) (w.removed i) i)
  unfold deleteInterface
  rw [deleteParsetree_eq, removed_streams, htree]
  generalize (w.streams i).foldl (pipelineUnref (w.pipeCount + 1)) (w.removed i) = x at hx
  have hsenders := hx.senders i
  rw [append_nil, count_nil, Nat.add_zero] at hsenders
  by_cases hpos : (w.ifaces i).senderCount > 0
  · -- others send on the interface, which is kept without its parse tree
    have hmore := count_pos_iff.mpr (senders_removed h hi hcareful hpos)
    have hnonzero : ¬ (x.ifaces i).senderCount = 0 := by
      change _ = (((w.removed i).attached.flatMap w.sends).count i : Int) at hsenders
      omega
    have hclosed := removed_closed h hi hx (Or.inl (rfl : (none : Option (List Nat)) = none))
    rw [closingMarks, if_neg hnonzero, append_nil] at hclosed
    rw [if_pos hpos]
    exact hclosed
  · -- nobody does, and it is deleted
    have hzero : (x.ifaces i).senderCount = 0 := by
      have hbefore := h.senders i
      rw [((attached_perm_removed hi).flatMap_right w.sends).count_eq, flatMap_append,
        count_append] at hbefore
      change _ = (((w.removed i).attached.flatMap w.sends).count i : Int) at hsenders
      omega
    have hclosed := removed_closed h hi hx (Or.inr hzero : (x.ifaces i).parsetree = none ∨ _)
    rw [closingMarks, if_pos hzero, closed, setIface, update_eq_self,
      ← append_assoc] at hclosed
    rw [if_neg hpos]
    exact hclosed

end Remove

/-! ## Histories -/

theorem lifeInv_step (w : Lifetimes) (e : LifeEvent) (h : LifeInv w) (hcareful : Careful w e) :
    LifeInv (lifeStep w e).1 := by
  cases e with
  | addInterface => exact lifeInv_addInterface h
  | compile name actions => exact lifeInv_compile h name hcareful
  | attach i p =>
    simp only [lifeStep]
    split_ifs with hip
    · by_cases htaken : w.Taken i p
      · rw [ifaceAddStream_of_taken htaken]
        exact h
      · rw [ifaceAddStream_of_not_taken htaken]
        have honce := (hcareful hip.1 hip.2).imp_right fun hor => hor.resolve_right htaken
        exact (attachedTo_foldl w i p).inv h hip.1 hip.2 honce
    · exact h
  | drop p =>
    simp only [lifeStep]
    split_ifs with hp
    · exact lifeInv_drop h hp (hcareful hp)
    · exact h
  | remove i =>
    simp only [lifeStep]
    split_ifs with hi
    · exact (removed_ifaceUnref h hi hcareful).inv h hi hcareful
    · exact h

/-- In a careful history the counts of senders are right throughout, and every interface
that is removed is deleted once with its parse tree, when it is not used any more. -/
theorem lifeRun_right (es : List LifeEvent)
    (hcareful : EveryStep lifeStep Careful noLifetimes es) :
    LifetimesRight (final lifeStep noLifetimes es) :=
  (final_invariant_of_everyStep LifeInv Careful lifeInv_step lifeInv_start es hcareful).right

/-- The stream of interface 0 sends on 1 and 2, and that of interface 3 on 0. Interface 1 is
removed first, and has to wait for the stream. -/
def carefulHistory : List LifeEvent :=
  [.addInterface, .addInterface, .addInterface, .addInterface,
   .compile "own" [.repl [[.send 1], [.other, .send 2]]], .attach 0 0, .drop 0,
   .compile "other" [.other, .send 0], .attach 3 1, .drop 1,
   .remove 1, .remove 3, .remove 0, .remove 2]

theorem carefulHistory_right :
    LifetimesRight (final lifeStep noLifetimes carefulHistory) ∧
      (final lifeStep noLifetimes carefulHistory).log =
        [.newParsetree 0, .newParsetree 3, .deleteParsetree 3, .deleteInterface 3,
         .deleteInterface 1, .deleteParsetree 0, .deleteInterface 0, .deleteInterface 2] :=
  ⟨lifeRun_right carefulHistory (by decide), by decide⟩

def sharedPipeline : List LifeEvent :=
  [.addInterface, .addInterface, .compile "shared" [.send 0], .attach 0 0, .attach 1 0]

def selfSender : List LifeEvent :=
  [.addInterface, .compile "self" [.send 0], .attach 0 0, .drop 0, .remove 0]

def neverAttached : List LifeEvent :=
  [.addInterface, .compile "unused" [.send 0], .drop 0]

def earlyTree : List LifeEvent :=
  [.addInterface, .addInterface, .compile "quiet" [.other], .attach 0 0,
   .compile "other" [.send 0], .attach 1 1, .remove 0]

/-- Senders are counted twice, a parse tree is deleted twice, senders are released that
were not counted, and a parse tree is deleted while a pipeline sends on its interface. -/
theorem careless_wrong :
    ((final lifeStep noLifetimes sharedPipeline).ifaces 0).senderCount = 2 ∧
    (final lifeStep noLifetimes sharedPipeline).sendersOf 0 = 1 ∧
    (final lifeStep noLifetimes selfSender).log =
      [.newParsetree 0, .deleteParsetree 0, .deleteInterface 0, .deleteParsetree 0] ∧
    ((final lifeStep noLifetimes neverAttached).ifaces 0).senderCount = -1 ∧
    (final lifeStep noLifetimes earlyTree).log =
      [.newParsetree 0, .newParsetree 1, .deleteParsetree 0] ∧
    (∀ es ∈ [sharedPipeline, selfSender, neverAttached, earlyTree],
      ¬ LifetimesRight (final lifeStep noLifetimes es)) := by
  refine ⟨by decide, by decide, by decide, by decide, by decide, ?_⟩
  simp only [forall_mem_cons, not_mem_nil, false_imp_iff, implies_true, and_true]
  refine ⟨fun h => absurd (h.senders 0 (by decide)) (by decide),
    fun h => absurd (h.parsetrees 0 (by decide)).2 (by decide),
    fun h => absurd (h.senders 0 (by decide)) (by decide),
    fun h => absurd (h.parsetrees 0 (by decide)).2 (by decide)⟩

end Dnt
