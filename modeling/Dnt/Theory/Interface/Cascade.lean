import Mathlib.Data.List.Perm.Basic
import Mathlib.Data.List.Count
import Dnt.Core.IfaceLifetime
import Dnt.Library.Mealy

/-!
# Deletions that Cause Deletions

A pipeline that is deleted releases the interfaces it sends on, its own first and
then those of its branches. An interface that is deleted releases the pipelines of
its streams. None is deleted twice, as counts of references only go down.

## Main definitions

* `sendInterfaces`, `deleteOrder`: The interfaces a pipeline sends on, and the order in which
  deleting it releases them.
* `SameShape`: States that differ in counts and deletions only.

## Theorems

* `lifeRun_fuel`: In every state that can be reached, one unit of fuel for each pipeline is
  enough to delete any of them.
-/

namespace Dnt

open Function Lifetimes

open Mealy

open List

/-! ## The interfaces of a pipeline -/

mutual

/-- The interfaces of all send actions, those of branches where the branches are. -/
def sendInterfaces : List PipelineAction → List Nat
  | [] => []
  | a :: rest => actionInterfaces a ++ sendInterfaces rest

def actionInterfaces : PipelineAction → List Nat
  | .send i => [i]
  | .repl pipes => branchInterfaces pipes
  | .other => []

def branchInterfaces : List (List PipelineAction) → List Nat
  | [] => []
  | pipe :: rest => sendInterfaces pipe ++ branchInterfaces rest

end

def ownInterface : PipelineAction → List Nat
  | .send i => [i]
  | _ => []

mutual

/-- What deleting the actions releases, which is what the branches send on. -/
def deleteOrder : List PipelineAction → List Nat
  | [] => []
  | a :: rest => actionDeleteOrder a ++ deleteOrder rest

def actionDeleteOrder : PipelineAction → List Nat
  | .send _ => []
  | .repl pipes => branchOrder pipes
  | .other => []

def branchOrder : List (List PipelineAction) → List Nat
  | [] => []
  | pipe :: rest => pipe.flatMap ownInterface ++ deleteOrder pipe ++ branchOrder rest

end

def releaseOrder (actions : List PipelineAction) : List Nat :=
  actions.flatMap ownInterface ++ deleteOrder actions

mutual

theorem releaseOrder_perm : ∀ actions : List PipelineAction,
    (actions.flatMap ownInterface ++ deleteOrder actions).Perm (sendInterfaces actions)
  | [] => List.Perm.refl _
  | a :: rest => by
    have hrest := releaseOrder_perm rest
    have ha := actionOrder_perm a
    rw [flatMap_cons, deleteOrder, sendInterfaces]
    calc ownInterface a ++ rest.flatMap ownInterface ++ (actionDeleteOrder a ++ deleteOrder rest)
        = ownInterface a ++
            (rest.flatMap ownInterface ++ (actionDeleteOrder a ++ deleteOrder rest)) :=
          append_assoc _ _ _
      _ = ownInterface a ++
            (rest.flatMap ownInterface ++ actionDeleteOrder a ++ deleteOrder rest) := by
          rw [append_assoc]
      _ ~ ownInterface a ++
            (actionDeleteOrder a ++ rest.flatMap ownInterface ++ deleteOrder rest) :=
          (perm_append_comm.append_right _).append_left _
      _ = ownInterface a ++ actionDeleteOrder a ++
            (rest.flatMap ownInterface ++ deleteOrder rest) := by
          simp
      _ ~ actionInterfaces a ++ sendInterfaces rest := ha.append hrest

theorem actionOrder_perm : ∀ a : PipelineAction,
    (ownInterface a ++ actionDeleteOrder a).Perm (actionInterfaces a)
  | .send _ => List.Perm.refl _
  | .repl pipes => branchOrder_perm pipes
  | .other => List.Perm.refl _

theorem branchOrder_perm : ∀ pipes : List (List PipelineAction),
    (branchOrder pipes).Perm (branchInterfaces pipes)
  | [] => List.Perm.refl _
  | pipe :: rest => (releaseOrder_perm pipe).append (branchOrder_perm rest)

end

/-! ## Loops over interfaces -/

mutual

theorem pipelineRefSendInterfaces_eq : ∀ (actions : List PipelineAction) (w : Lifetimes),
    pipelineRefSendInterfaces actions w = (sendInterfaces actions).foldl ifaceAddSender w
  | [], _ => rfl
  | a :: rest, w => by
    rw [pipelineRefSendInterfaces, sendInterfaces, foldl_append, refAction_eq a w]
    exact pipelineRefSendInterfaces_eq rest _

theorem refAction_eq : ∀ (a : PipelineAction) (w : Lifetimes),
    refAction a w = (actionInterfaces a).foldl ifaceAddSender w
  | .send _, _ => rfl
  | .repl pipes, w => refBranches_eq pipes w
  | .other, _ => rfl

theorem refBranches_eq : ∀ (pipes : List (List PipelineAction)) (w : Lifetimes),
    refBranches pipes w = (branchInterfaces pipes).foldl ifaceAddSender w
  | [], _ => rfl
  | pipe :: rest, w => by
    rw [refBranches, branchInterfaces, foldl_append, pipelineRefSendInterfaces_eq pipe w]
    exact refBranches_eq rest _

end

section Loops

variable (del : Lifetimes → Nat → Lifetimes)

variable {live : List Nat} {i p : Nat}

theorem unrefSendInterfaces_eq (actions : List PipelineAction) (w : Lifetimes) :
    unrefSendInterfaces del actions w = (actions.flatMap ownInterface).foldl del w := by
  induction actions generalizing w with
  | nil => rfl
  | cons a rest ih =>
    rw [flatMap_cons, foldl_append, ← ih]
    cases a with
    | send i | repl pipes | other => rfl

mutual

theorem deleteActions_eq : ∀ (actions : List PipelineAction) (w : Lifetimes),
    deleteActions del actions w = (deleteOrder actions).foldl del w
  | [], _ => rfl
  | a :: rest, w => by
    rw [deleteActions, deleteOrder, foldl_append, deleteAction_eq a w]
    exact deleteActions_eq rest _

theorem deleteAction_eq : ∀ (a : PipelineAction) (w : Lifetimes),
    deleteAction del a w = (actionDeleteOrder a).foldl del w
  | .send _, _ => rfl
  | .repl pipes, w => unrefBranches_eq pipes w
  | .other, _ => rfl

theorem unrefBranches_eq : ∀ (pipes : List (List PipelineAction)) (w : Lifetimes),
    unrefBranches del pipes w = (branchOrder pipes).foldl del w
  | [], _ => rfl
  | pipe :: rest, w => by
    rw [unrefBranches, branchOrder, foldl_append, foldl_append,
      unrefSendInterfaces_eq, deleteActions_eq pipe _]
    exact unrefBranches_eq rest _

end

end Loops

def Lifetimes.lowered (w : Lifetimes) (p : Nat) : Lifetimes :=
  w.setPipe p { w.pipes p with referenceCount := (w.pipes p).referenceCount - 1 }

/-- Releasing a pipeline is a loop over its interfaces, if the count becomes zero. -/
theorem pipelineUnref_succ (fuel : Nat) (w : Lifetimes) (p : Nat) :
    pipelineUnref (fuel + 1) w p =
      if (w.pipes p).referenceCount - 1 = 0 then
        (releaseOrder (w.pipes p).actions).foldl (ifaceDelSender (pipelineUnref fuel))
          (w.lowered p)
      else w.lowered p := by
  have hactions : ((w.lowered p).pipes p).actions = (w.pipes p).actions := by
    simp [lowered, setPipe]
  unfold releaseOrder
  rw [foldl_append, ← unrefSendInterfaces_eq, ← deleteActions_eq, ← hactions]
  rfl

def Lifetimes.unreferenced (w : Lifetimes) (i : Nat) : Lifetimes :=
  w.setIface i { w.ifaces i with referenceCount := (w.ifaces i).referenceCount - 1 }

def Lifetimes.withoutTree (w : Lifetimes) (i : Nat) : Lifetimes :=
  w.setIface i { w.ifaces i with parsetree := none }

theorem ifaceUnref_eq (w : Lifetimes) (i : Nat) :
    ifaceUnref w i =
      if (w.ifaces i).referenceCount - 1 = 0 then
        if (w.ifaces i).senderCount > 0 then
          (deleteParsetree (pipelineUnref (w.pipeCount + 1)) (w.unreferenced i) i).withoutTree i
        else deleteInterface (pipelineUnref (w.pipeCount + 1)) (w.unreferenced i) i
      else w.unreferenced i := by
  have hsenders : ((w.unreferenced i).ifaces i).senderCount = (w.ifaces i).senderCount := by
    simp [unreferenced, setIface]
  rw [← hsenders]
  rfl

/-! ## Attaching -/

/-- The pipelines of the streams of an interface. -/
def Lifetimes.streams (w : Lifetimes) (i : Nat) : List Nat :=
  (w.ifaces i).parsetree.getD []

/-- The interfaces that a pipeline sends on. -/
def Lifetimes.sends (w : Lifetimes) (p : Nat) : List Nat :=
  sendInterfaces (w.pipes p).actions

/-- The pipeline is in the parse tree, which may be new, and not yet counted. -/
def Lifetimes.joined (w : Lifetimes) (i p : Nat) : Lifetimes :=
  { w with
    ifaces := update w.ifaces i
      { w.ifaces i with parsetree := some (w.streams i ++ [p]) }
    pipes := (pipelineRef w p).pipes
    log := if (w.ifaces i).parsetree = none then w.log ++ [.newParsetree i] else w.log }

/-- A stream of the same name is in the way. -/
def Lifetimes.Taken (w : Lifetimes) (i p : Nat) : Prop :=
  ∃ q ∈ w.streams i, (w.pipes q).name = (w.pipes p).name

instance Lifetimes.Taken.decidable (w : Lifetimes) (i p : Nat) : Decidable (w.Taken i p) :=
  inferInstanceAs (Decidable (∃ q ∈ w.streams i, (w.pipes q).name = (w.pipes p).name))

theorem any_name_iff (w : Lifetimes) (i p : Nat) :
    (w.streams i).any (fun q => (w.pipes q).name == (w.pipes p).name) = true ↔ w.Taken i p := by
  rw [any_eq_true]
  exact exists_congr fun q => and_congr_right fun _ => beq_iff_eq

theorem ifaceAddStream_of_taken {w : Lifetimes} (h : w.Taken i p) :
    ifaceAddStream w i p = (false, w) := by
  have hany := (any_name_iff w i p).mpr h
  unfold streams at hany
  have htree : (w.ifaces i).parsetree ≠ none := by
    intro hnone
    rw [hnone] at hany
    cases hany
  simp only [ifaceAddStream, if_neg htree]
  rw [if_pos hany]

theorem ifaceAddStream_of_not_taken {w : Lifetimes} (h : ¬ w.Taken i p) :
    ifaceAddStream w i p = (true, (w.sends p).foldl ifaceAddSender (w.joined i p)) := by
  have hany := mt (any_name_iff w i p).mp h
  have hactions : ((pipelineRef w p).pipes p).actions = (w.pipes p).actions := by
    simp [pipelineRef, setPipe]
  unfold streams at hany
  unfold sends
  rw [← pipelineRefSendInterfaces_eq, ← hactions]
  by_cases htree : (w.ifaces i).parsetree = none
  · have hempty : (((w.setIface i { w.ifaces i with parsetree := some [] }).mark
        (.newParsetree i)).ifaces i).parsetree = some [] := by
      simp [mark, setIface]
    simp only [ifaceAddStream, if_pos htree, hempty, Option.getD_some, any_nil,
      Bool.false_eq_true, if_false]
    simp [pipelineRef, setPipe, setIface, mark, joined,
      streams, htree]
  · simp only [ifaceAddStream, if_neg htree, joined, streams]
    rw [if_neg hany]
    rfl

/-! ## What deletions leave alone -/

/-- The states differ in counts of senders, counts of references to pipelines, and in
what was deleted. -/
structure SameShape (w w' : Lifetimes) : Prop where
  ifaceCount : w'.ifaceCount = w.ifaceCount
  pipeCount : w'.pipeCount = w.pipeCount
  stateInterfaces : w'.stateInterfaces = w.stateInterfaces
  pipeCache : w'.pipeCache = w.pipeCache
  actions : ∀ p, (w'.pipes p).actions = (w.pipes p).actions
  references : ∀ j, (w'.ifaces j).referenceCount = (w.ifaces j).referenceCount
  parsetree : ∀ j, (w'.ifaces j).parsetree = (w.ifaces j).parsetree

theorem SameShape.refl (w : Lifetimes) : SameShape w w :=
  ⟨rfl, rfl, rfl, rfl, fun _ => rfl, fun _ => rfl, fun _ => rfl⟩

theorem SameShape.trans {w w' w'' : Lifetimes} (h : SameShape w w') (h' : SameShape w' w'') :
    SameShape w w'' where
  ifaceCount := h'.ifaceCount.trans h.ifaceCount
  pipeCount := h'.pipeCount.trans h.pipeCount
  stateInterfaces := h'.stateInterfaces.trans h.stateInterfaces
  pipeCache := h'.pipeCache.trans h.pipeCache
  actions p := (h'.actions p).trans (h.actions p)
  references j := (h'.references j).trans (h.references j)
  parsetree j := (h'.parsetree j).trans (h.parsetree j)

theorem sameShape_mark (w : Lifetimes) (m : LifeMark) : SameShape w (w.mark m) :=
  ⟨rfl, rfl, rfl, rfl, fun _ => rfl, fun _ => rfl, fun _ => rfl⟩

theorem sameShape_setSenderCount (w : Lifetimes) (i : Nat) (n : Int) :
    SameShape w (w.setIface i { w.ifaces i with senderCount := n }) := by
  refine ⟨rfl, rfl, rfl, rfl, fun _ => rfl, fun j => ?_, fun j => ?_⟩
  all_goals
    by_cases hj : j = i
    · subst hj
      simp only [setIface, update_self]
    · simp only [setIface, update_of_ne hj]

theorem sameShape_lowered (w : Lifetimes) (p : Nat) : SameShape w (w.lowered p) := by
  refine ⟨rfl, rfl, rfl, rfl, fun q => ?_, fun _ => rfl, fun _ => rfl⟩
  by_cases hq : q = p
  · subst hq
    simp only [lowered, setPipe, update_self]
  · simp only [lowered, setPipe, update_of_ne hq]

/-! ## Enough fuel -/

/-- All pipelines with references are in the list. -/
def LiveWithin (live : List Nat) (w : Lifetimes) : Prop :=
  ∀ p, 0 < (w.pipes p).referenceCount → p ∈ live

section Congruence

variable {I : Lifetimes → Prop} {u u' : Lifetimes → Nat → Lifetimes}
  (hframe : ∀ w ifaces log, I w → I { w with ifaces := ifaces, log := log })
  (hu : ∀ w q, I w → u w q = u' w q ∧ I (u w q))

include hu in
/-- Two functions that agree as long as a property holds, and keep it, agree in a loop. -/
theorem foldl_congr_of_invariant (qs : List Nat) (w : Lifetimes) (hw : I w) :
    qs.foldl u w = qs.foldl u' w ∧ I (qs.foldl u w) := by
  induction qs generalizing w with
  | nil => exact ⟨rfl, hw⟩
  | cons q qs ih =>
    obtain ⟨heq, hI⟩ := hu w q hw
    rw [foldl_cons, foldl_cons, ← heq]
    exact ih _ hI

include hframe hu

theorem deleteParsetree_congr {w : Lifetimes} (i : Nat) (hw : I w) :
    deleteParsetree u w i = deleteParsetree u' w i ∧ I (deleteParsetree u w i) := by
  unfold deleteParsetree
  cases (w.ifaces i).parsetree with
  | none => exact ⟨rfl, hw⟩
  | some streams =>
    obtain ⟨heq, hI⟩ := foldl_congr_of_invariant hu streams w hw
    simp only
    rw [← heq]
    exact ⟨rfl, hframe (streams.foldl u w) _ _ hI⟩

theorem deleteInterface_congr {w : Lifetimes} (i : Nat) (hw : I w) :
    deleteInterface u w i = deleteInterface u' w i ∧ I (deleteInterface u w i) := by
  obtain ⟨heq, hI⟩ := deleteParsetree_congr hframe hu i hw
  unfold deleteInterface
  rw [← heq]
  exact ⟨rfl, hframe (deleteParsetree u w i) _ _ hI⟩

theorem ifaceDelSender_congr (w : Lifetimes) (i : Nat) (hw : I w) :
    ifaceDelSender u w i = ifaceDelSender u' w i ∧ I (ifaceDelSender u w i) := by
  have hset : I (w.setIface i { w.ifaces i with
      senderCount := (w.ifaces i).senderCount - 1 }) := hframe w _ _ hw
  simp only [ifaceDelSender]
  split_ifs
  · exact ⟨rfl, hset⟩
  · exact deleteInterface_congr hframe hu i hset
  · exact ⟨rfl, hset⟩

end Congruence

theorem LiveWithin.lowered (h : LiveWithin live w) (p : Nat) : LiveWithin live (w.lowered p) := by
  intro q hq
  refine h q ?_
  simp only [Lifetimes.lowered, setPipe] at hq
  by_cases hqp : q = p
  · subst hqp
    rw [update_self] at hq
    dsimp only at hq
    omega
  · rwa [update_of_ne hqp] at hq

theorem LiveWithin.lowered_erase (h : LiveWithin live w)
    (hzero : (w.pipes p).referenceCount - 1 = 0) :
    p ∈ live ∧ LiveWithin (live.filter (· ≠ p)) (w.lowered p) := by
  refine ⟨h p (by omega), fun q hq => ?_⟩
  have hne : q ≠ p := by
    rintro rfl
    simp only [Lifetimes.lowered, setPipe, update_self] at hq
    omega
  exact mem_filter.mpr ⟨h.lowered p q hq, decide_eq_true hne⟩

theorem length_filter_ne_lt {live : List Nat} {p : Nat} (hp : p ∈ live) :
    (live.filter (· ≠ p)).length < live.length := by
  refine length_filter_lt_length_iff_exists.mpr ⟨p, hp, ?_⟩
  simp

/-- No pipeline was added, and those of the cache are the same. -/
def StaysWithin (live : List Nat) (n : Nat) (cache : List Nat) (w : Lifetimes) : Prop :=
  LiveWithin live w ∧ w.pipeCount = n ∧ w.pipeCache = cache

/-- One more unit than there are pipelines with references is enough, and then any two
amounts of fuel do the same. -/
theorem pipelineUnref_fuel {live cache : List Nat} {n fuel fuel' : Nat}
    (hfuel : live.length < fuel) (hfuel' : live.length < fuel') (w : Lifetimes) (p : Nat)
    (hw : StaysWithin live n cache w) :
    pipelineUnref fuel w p = pipelineUnref fuel' w p ∧
      StaysWithin live n cache (pipelineUnref fuel w p) := by
  induction fuel generalizing live fuel' w p with
  | zero => omega
  | succ fuel ih =>
    obtain ⟨fuel', rfl⟩ : ∃ n, fuel' = n + 1 := ⟨fuel' - 1, by omega⟩
    rw [pipelineUnref_succ, pipelineUnref_succ]
    by_cases hzero : (w.pipes p).referenceCount - 1 = 0
    · rw [if_pos hzero, if_pos hzero]
      -- from here on this pipeline is none of those that may be deleted
      obtain ⟨hp, hlive⟩ := hw.1.lowered_erase hzero
      have hlt := length_filter_ne_lt hp
      have hunref : ∀ w q, StaysWithin (live.filter (· ≠ p)) n cache w →
          pipelineUnref fuel w q = pipelineUnref fuel' w q ∧
            StaysWithin (live.filter (· ≠ p)) n cache (pipelineUnref fuel w q) :=
        fun w q => ih (by omega) (by omega) w q
      have hdel := ifaceDelSender_congr (fun _ _ _ h => h) hunref
      obtain ⟨heq, hI⟩ := foldl_congr_of_invariant hdel (releaseOrder (w.pipes p).actions) _
        ⟨hlive, hw.2⟩
      exact ⟨heq, fun q hq => mem_of_mem_filter (hI.1 q hq), hI.2⟩
    · rw [if_neg hzero, if_neg hzero]
      exact ⟨rfl, hw.1.lowered p, hw.2⟩

/-! ### In every history -/

/-- Only addresses that were given out are in use. -/
structure Allocated (w : Lifetimes) : Prop where
  live : LiveWithin (range w.pipeCount) w
  cache : ∀ p ∈ w.pipeCache, p < w.pipeCount

theorem liveWithin_range {n : Nat} :
    LiveWithin (range n) w ↔ ∀ p, 0 < (w.pipes p).referenceCount → p < n :=
  forall_congr' fun _ => imp_congr_right fun _ => mem_range

theorem allocated_of_within {n : Nat} {cache : List Nat} (h : StaysWithin (range n) n cache w)
    (hcache : ∀ p ∈ cache, p < n) : Allocated w := by
  obtain ⟨hlive, rfl, rfl⟩ := h
  exact ⟨hlive, hcache⟩

theorem unref_within (v : Lifetimes) (p : Nat) {cache : List Nat}
    (hw : StaysWithin (range v.pipeCount) v.pipeCount cache w) :
    StaysWithin (range v.pipeCount) v.pipeCount cache (v.unref w p) := by
  have hlength : (range v.pipeCount).length < v.pipeCount + 1 := by
    rw [length_range]
    exact Nat.lt_succ_self _
  exact (pipelineUnref_fuel hlength hlength w p hw).2

theorem ifaceUnref_within (w : Lifetimes) (i : Nat)
    (hw : LiveWithin (range w.pipeCount) w) :
    StaysWithin (range w.pipeCount) w.pipeCount w.pipeCache (ifaceUnref w i) := by
  have hunref (v : Lifetimes) (q : Nat)
      (hv : StaysWithin (range w.pipeCount) w.pipeCount w.pipeCache v) :=
    And.intro (Eq.refl (w.unref v q)) (unref_within w q hv)
  have hstart : StaysWithin (range w.pipeCount) w.pipeCount w.pipeCache (w.unreferenced i) :=
    ⟨hw, rfl, rfl⟩
  rw [ifaceUnref_eq]
  split_ifs
  · exact (deleteParsetree_congr (fun _ _ _ h => h) hunref i hstart).2
  · exact (deleteInterface_congr (fun _ _ _ h => h) hunref i hstart).2
  · exact hstart

theorem foldl_ifaceAddSender_eq (is : List Nat) (w : Lifetimes) :
    is.foldl ifaceAddSender w = { w with ifaces := (is.foldl ifaceAddSender w).ifaces } := by
  induction is generalizing w with
  | nil => rfl
  | cons i is ih =>
    rw [foldl_cons, ih]
    rfl

theorem allocated_lifeStep (w : Lifetimes) (e : LifeEvent) (hw : Allocated w) :
    Allocated (lifeStep w e).1 := by
  have hlive := liveWithin_range.mp hw.live
  cases e with
  | addInterface => exact ⟨hw.live, hw.cache⟩
  | compile name actions =>
    refine ⟨liveWithin_range.mpr fun p hp => ?_, ?_⟩
    · by_cases hpc : p = w.pipeCount
      · exact hpc ▸ Nat.lt_succ_self _
      · simp only [lifeStep, setPipe, update_of_ne hpc] at hp
        exact Nat.lt_succ_of_lt (hlive p hp)
    · refine forall_mem_cons.mpr ⟨Nat.lt_succ_self _, fun p hp => ?_⟩
      exact Nat.lt_succ_of_lt (hw.cache p hp)
  | attach i p =>
    simp only [lifeStep]
    split_ifs with hip
    · by_cases htaken : w.Taken i p
      · rw [ifaceAddStream_of_taken htaken]
        exact hw
      · rw [ifaceAddStream_of_not_taken htaken, foldl_ifaceAddSender_eq]
        refine ⟨liveWithin_range.mpr fun q hq => ?_, hw.cache⟩
        by_cases hqp : q = p
        · exact hqp ▸ hw.cache p hip.2
        · refine hlive q ?_
          simpa only [joined, pipelineRef, setPipe, update_of_ne hqp] using hq
    · exact hw
  | drop p =>
    simp only [lifeStep]
    split_ifs with hp
    · refine allocated_of_within (unref_within w p ⟨hw.live, rfl, rfl⟩) fun q hq => ?_
      exact hw.cache q (mem_of_mem_erase hq)
    · exact hw
  | remove i =>
    simp only [lifeStep]
    split_ifs with hi
    · exact allocated_of_within (ifaceUnref_within
        { w with stateInterfaces := w.stateInterfaces.erase i } i hw.live) hw.cache
    · exact hw

/-- Releasing a pipeline comes to an end in every history, also if interfaces send on each
other in a circle. Deletions are not nested deeper than there are pipelines. -/
theorem lifeRun_fuel (es : List LifeEvent) (fuel p : Nat)
    (hfuel : (final lifeStep noLifetimes es).pipeCount < fuel) :
    pipelineUnref fuel (final lifeStep noLifetimes es) p =
      (final lifeStep noLifetimes es).unref (final lifeStep noLifetimes es) p := by
  have hstart : Allocated noLifetimes :=
    ⟨fun p hp => absurd hp (Int.lt_irrefl 0), forall_mem_nil _⟩
  have hend := final_invariant Allocated allocated_lifeStep hstart es
  generalize final lifeStep noLifetimes es = w at hfuel hend
  have hlength : (range w.pipeCount).length = w.pipeCount := length_range
  exact (pipelineUnref_fuel (by omega) (by omega) w p ⟨hend.live, rfl, rfl⟩).1

/-- Two interfaces with pipelines that send on each other. -/
theorem lifeRun_fuel_cycle :
    let w := final lifeStep noLifetimes [.addInterface, .addInterface, .compile "a" [.send 1],
      .compile "b" [.repl [[.send 0]]], .attach 0 0, .attach 1 1, .drop 0, .drop 1, .remove 0]
    pipelineUnref 3 w 1 = w.unref w 1 :=
  lifeRun_fuel _ 3 1 (by decide)

end Dnt
