import Dnt.Library.Mealy
import Dnt.Theory.Pipeline.Ownership

/-!
# Packet Conservation

Each step concerns the packets of one owner, and the others are the frame around it. The
weight of what is left to do goes down with every step of a thread, so packets are also
freed in the end.

## Main definitions

* `owners`: The packets owned, once for each owner.
* `PlaneOk`: The invariant of the data plane.
* `stackWeight`: What a thread has left to do.

## Theorems

* `planeRun_conserves`: In any interleaving, every packet that enters the data plane, and
  every copy of it, has one owner or was freed once.
-/

namespace Dnt

open Mealy

open List

variable {s : DataPlane} {k : Nat} {pi : PipelineIterator}

/-- The packets owned, once for each owner. -/
def owners (s : DataPlane) : List Nat :=
  s.threads.flatMap stackOwned ++ (heldOwned s.held ++ s.fifo)

/-- The invariant of the data plane. -/
structure PlaneOk (s : DataPlane) : Prop where
  pool : PoolOk s.pool (owners s)
  threads : ∀ stack ∈ s.threads, StackOk stack ∧ stack ≠ []
  held : ∀ pi ∈ s.held, HeldOk pi

/-- The pipelines packets are sent into are solid. -/
def SolidInput : PlaneInput → Prop
  | .receive stream => ∀ pipe ∈ stream, Solid pipe
  | .receiveQueued _ stream => ∀ pipe ∈ stream, Solid pipe
  | _ => True

variable {a : Action} {pipe : List Action} {held : List PipelineIterator} {inputs : List PlaneInput}
  {pos : Nat} {input : PlaneInput} {β : Type*}

theorem perm_cons_eraseIdx {l : List β} {b : β} (h : l[k]? = some b) :
    l.Perm (b :: l.eraseIdx k) := by
  rcases List.getElem?_eq_some_iff.mp h with ⟨hk, rfl⟩
  exact (List.getElem_cons_eraseIdx_perm hk).symm

theorem heldOwned_perm (h : held[k]? = some pi) :
    (heldOwned held).Perm (pi.packet.toList ++ heldOwned (held.eraseIdx k)) :=
  (perm_cons_eraseIdx h).flatMap_right _

theorem receiveQueued_ok (hok : PlaneOk s) {p : Nat} {stream : Option (List Action)}
    (hp : s.fifo[k]? = some p) (hsolid : ∀ pipe ∈ stream, Solid pipe) :
    PlaneOk { s with threads := [.receive p stream] :: s.threads, fifo := s.fifo.eraseIdx k } := by
  refine ⟨hok.pool.perm ?_, ?_, hok.held⟩
  · have hfifo := perm_cons_eraseIdx hp
    simp only [owners, flatMap_cons]
    refine ((hfifo.append_left _).append_left _).trans ?_
    refine ((perm_middle).append_left _).trans ?_
    exact perm_middle
  · exact forall_mem_cons.mpr ⟨⟨.receive p stream hsolid, cons_ne_nil _ _⟩, hok.threads⟩

theorem threadStep_ok (hok : PlaneOk s) (c : Conditions) {stack : List Frame}
    (hstack : s.threads[k]? = some stack) : PlaneOk (planeStep s (.step k c)).1 ∧
      s.pool.heap.Extends (planeStep s (.step k c)).1.pool.heap := by
  have hthreads := perm_cons_eraseIdx hstack
  have hmem := hok.threads stack (mem_of_getElem? hstack)
  have hother : ∀ st ∈ s.threads.eraseIdx k, StackOk st ∧ st ≠ [] := by
    intro st hst
    exact hok.threads st (mem_of_mem_eraseIdx hst)
  have hpool : PoolOk s.pool (stackOwned stack ++
      ((s.threads.eraseIdx k).flatMap stackOwned ++ (heldOwned s.held ++ s.fifo))) := by
    refine hok.pool.perm ?_
    rw [← append_assoc, ← flatMap_cons]
    exact (hthreads.flatMap_right stackOwned).append_right _
  have hnext := advance_ok s.pool _ c hmem.1 hpool
  simp only [planeStep, hstack]
  refine ⟨⟨hnext.owned.perm ?_, ?_, ?_⟩, hnext.later⟩
  · -- a thread whose stack is empty ends, and owned nothing
    have hempty : (if (advance s.pool c stack).stack.isEmpty = true then s.threads.eraseIdx k
          else (advance s.pool c stack).stack :: s.threads.eraseIdx k).flatMap stackOwned =
        stackOwned (advance s.pool c stack).stack ++
          (s.threads.eraseIdx k).flatMap stackOwned := by
      split_ifs with hnil
      · rw [isEmpty_iff.mp hnil]
        rfl
      · rw [flatMap_cons]
    simp only [owners, hempty, heldOwned, flatMap_append, append_assoc]
    refine List.Perm.append_left _ ?_
    -- the other threads move to the front, and what was queued to the queue
    refine ((perm_append_comm_assoc _ _ _).append_left _).trans ?_
    refine (perm_append_comm_assoc _ _ _).trans (List.Perm.append_left _ ?_)
    exact List.Perm.append_left _ (perm_append_comm_assoc _ _ _)
  · intro st hst
    split_ifs at hst with hnil
    · exact hother st hst
    · rcases mem_cons.mp hst with rfl | hst
      · exact ⟨hnext.stack, fun h => hnil (isEmpty_iff.mpr h)⟩
      · exact hother st hst
  · intro pi hpi
    rcases mem_append.mp hpi with hpi | hpi
    · exact hnext.held pi hpi
    · exact hok.held pi hpi

theorem resume_ok (hok : PlaneOk s) (hpi : s.held[k]? = some pi) : PlaneOk { s with
      threads := [.iterator { pi with pos := pi.pos + 1 }] :: s.threads
      held := s.held.eraseIdx k } := by
  have hheld := hok.held pi (mem_of_getElem? hpi)
  rcases hheld.exists_packet with ⟨p, hp⟩
  refine ⟨hok.pool.perm ?_, ?_, ?_⟩
  · simp only [owners, flatMap_cons, stackOwned, flatMap_nil, Frame.owned,
      append_nil]
    -- the packet moves from the iterator on hold to the front, the thread's place
    have hmove := heldOwned_perm hpi
    refine ((hmove.append_right _).append_left _).trans ?_
    rw [append_assoc, append_assoc]
    exact perm_append_comm_assoc _ _ _
  · refine forall_mem_cons.mpr ⟨⟨?_, cons_ne_nil _ _⟩, hok.threads⟩
    rw [hp]
    exact .running p pi.pipe (pi.pos + 1) [] hheld.2 .nil
  · intro pi' hpi'
    exact hok.held pi' (mem_of_mem_eraseIdx hpi')

theorem cancel_ok (hok : PlaneOk s) (hpi : s.held[k]? = some pi) :
    PlaneOk { s with pool := deleteIterator s.pool pi, held := s.held.eraseIdx k } ∧
      s.pool.heap.Extends (deleteIterator s.pool pi).heap := by
  rcases (hok.held pi (mem_of_getElem? hpi)).exists_packet with ⟨p, hp⟩
  have hmove := heldOwned_perm hpi
  rw [hp, Option.toList_some, singleton_append] at hmove
  simp only [deleteIterator, hp]
  refine ⟨⟨?_, hok.threads, ?_⟩, extends_deletePacket s.pool p⟩
  · refine poolOk_delete (hok.pool.perm ?_)
    exact ((hmove.append_right _).append_left _).trans perm_middle
  · intro pi' hpi'
    exact hok.held pi' (mem_of_mem_eraseIdx hpi')

theorem planeStep_ok (hok : PlaneOk s) (hsolid : SolidInput input) :
    PlaneOk (planeStep s input).1 ∧ s.pool.heap.Extends (planeStep s input).1.pool.heap := by
  have hsame : PlaneOk s ∧ s.pool.heap.Extends s.pool.heap := ⟨hok, Ledger.extends_refl _⟩
  cases input with
  | receive stream =>
    refine ⟨⟨poolOk_new hok.pool, ?_, hok.held⟩, ?_⟩
    · exact forall_mem_cons.mpr
        ⟨⟨.receive _ stream hsolid, cons_ne_nil _ _⟩, hok.threads⟩
    · simp only [planeStep, newPacketFast]
      split_ifs <;> exact Ledger.extends_alloc _ _
  | receiveQueued k stream =>
    cases hp : s.fifo[k]? with
    | none =>
      simp only [planeStep, hp]
      exact hsame
    | some p =>
      simp only [planeStep, hp]
      exact ⟨receiveQueued_ok hok hp hsolid, Ledger.extends_refl _⟩
  | step k c =>
    cases hstack : s.threads[k]? with
    | none =>
      simp only [planeStep, hstack]
      exact hsame
    | some stack => exact threadStep_ok hok c hstack
  | resume k =>
    cases hpi : s.held[k]? with
    | none =>
      simp only [planeStep, hpi]
      exact hsame
    | some pi =>
      simp only [planeStep, hpi]
      exact ⟨resume_ok hok hpi, Ledger.extends_refl _⟩
  | cancel k =>
    cases hpi : s.held[k]? with
    | none =>
      simp only [planeStep, hpi]
      exact hsame
    | some pi =>
      simp only [planeStep, hpi]
      exact cancel_ok hok hpi

section Weight

/-- What a frame has left to do, measured by the size of the pipelines in front
of it. -/
noncomputable def Frame.weight : Frame → Nat
  | .receive _ none => 1
  | .receive _ (some pipe) => sizeOf pipe + 1
  | .iterator ⟨none, _, _⟩ => 1
  | .iterator ⟨some _, pipe, pos⟩ => sizeOf (pipe.drop pos)
  | .repl _ _ list => sizeOf list + 1

noncomputable def stackWeight (stack : List Frame) : Nat :=
  (stack.map Frame.weight).sum

/-- An iterator on hold will be resumed behind its current action. -/
noncomputable def heldWeight (held : List PipelineIterator) : Nat :=
  (held.map fun pi => sizeOf (pi.pipe.drop (pi.pos + 1)) + 1).sum

noncomputable def planeWeight (s : DataPlane) : Nat :=
  (s.threads.map stackWeight).sum + heldWeight s.held

theorem sizeOf_list_pos [SizeOf β] (l : List β) : 0 < sizeOf l := by
  cases l <;> simp only [List.nil.sizeOf_spec, List.cons.sizeOf_spec] <;> omega

theorem stackWeight_cons (frame : Frame) (stack : List Frame) :
    stackWeight (frame :: stack) = frame.weight + stackWeight stack := by
  simp [stackWeight]

theorem frameWeight_pos (frame : Frame) : 0 < frame.weight := by
  match frame with
  | .receive _ none => exact Nat.one_pos
  | .receive _ (some pipe) => exact Nat.succ_pos _
  | .iterator ⟨none, _, _⟩ => exact Nat.one_pos
  | .iterator ⟨some _, pipe, pos⟩ => exact sizeOf_list_pos _
  | .repl _ _ list => exact Nat.succ_pos _

theorem sizeOf_drop (h : pipe[pos]? = some a) :
    sizeOf (pipe.drop pos) = 1 + sizeOf a + sizeOf (pipe.drop (pos + 1)) := by
  rcases List.getElem?_eq_some_iff.mp h with ⟨hpos, rfl⟩
  rw [List.drop_eq_getElem_cons hpos, List.cons.sizeOf_spec]

theorem sizeOf_action_pos (a : Action) : 0 < sizeOf a := by
  cases a <;> simp only [Action.simple.sizeOf_spec, Action.delay.sizeOf_spec,
    Action.send.sizeOf_spec, Action.repl.sizeOf_spec] <;> omega

theorem runAction_weight (pool : PacketPool) (p q : Nat) (below : List Frame) (c : Conditions)
    (ha : pipe[pos]? = some a) :
    stackWeight (runAction pool ⟨some p, pipe, pos⟩ q below c a).stack +
        heldWeight (runAction pool ⟨some p, pipe, pos⟩ q below c a).held <
      stackWeight (.iterator ⟨some p, pipe, pos⟩ :: below) := by
  have hsize := sizeOf_drop ha
  have hpos := sizeOf_action_pos a
  have hrest := sizeOf_list_pos (pipe.drop (pos + 1))
  rw [stackWeight_cons, Frame.weight]
  unfold runAction
  cases a.execute c with
  | acrContinue =>
    simp only [stackWeight_cons, Frame.weight, heldWeight, map_nil, sum_nil]
    omega
  | acrDone =>
    simp only [heldWeight, map_nil, sum_nil]
    omega
  | acrHold =>
    simp only [heldWeight, map_cons, map_nil, sum_cons, sum_nil]
    omega

theorem advance_weight (pool : PacketPool) (c : Conditions) {stack : List Frame}
    (hne : stack ≠ []) :
    stackWeight (advance pool c stack).stack + heldWeight (advance pool c stack).held <
      stackWeight stack := by
  have hnone : heldWeight [] = 0 := rfl
  rcases stack with _ | ⟨frame, below⟩
  · exact absurd rfl hne
  have hframe := frameWeight_pos frame
  -- steps that only take the frame away
  have hpop : stackWeight below + heldWeight [] < stackWeight (frame :: below) := by
    rw [stackWeight_cons, hnone]
    omega
  match frame with
  | .receive p none => exact hpop
  | .receive p (some pipe) =>
    simp only [advance, processReceived]
    split_ifs
    · simp only [stackWeight_cons, Frame.weight, drop_zero, hnone]
      omega
    · exact hpop
  | .iterator ⟨none, pipe, pos⟩ =>
    simp only [advance, runIterator]
    cases pipe[pos]? <;> exact hpop
  | .iterator ⟨some p, pipe, pos⟩ =>
    simp only [advance, runIterator]
    cases ha : pipe[pos]? with
    | none => exact hpop
    | some a =>
      cases a with
      | repl bs =>
        -- the branches weigh less than the action they are in, and the
        -- iterator without its packet weighs one
        have hsize := sizeOf_drop ha
        have hrest := sizeOf_list_pos (pipe.drop (pos + 1))
        rw [Action.repl.sizeOf_spec] at hsize
        simp only [stackWeight_cons, Frame.weight, hnone]
        omega
      | simple type | delay offload | send internal => exact runAction_weight pool p p below c ha
  | .repl p isOam [] =>
    match below with
    | .iterator pi :: below' =>
      have hiter := frameWeight_pos (.iterator pi)
      rw [stackWeight_cons, stackWeight_cons]
      simp only [advance, runReplicate, hnone]
      omega
    | [] => exact hpop
    | .receive _ _ :: _ => exact hpop
    | .repl _ _ _ :: _ => exact hpop
  | .repl p isOam (branch :: rest) =>
    simp only [advance, runReplicate, pipelineProcess]
    split_ifs <;> simp only [stackWeight_cons, Frame.weight, drop_zero, hnone,
      List.cons.sizeOf_spec] <;> omega

/-- The steps that do not bring in packets. Each picks a thread, or an iterator
on hold. -/
def Working (s : DataPlane) : PlaneInput → Prop
  | .step k _ => k < s.threads.length
  | .resume k => k < s.held.length
  | .cancel k => k < s.held.length
  | _ => False

theorem heldWeight_perm {held' : List PipelineIterator} (h : held.Perm held') :
    heldWeight held = heldWeight held' :=
  (h.map _).sum_nat

theorem planeStep_weight (hok : PlaneOk s) (hworking : Working s input) :
    planeWeight (planeStep s input).1 < planeWeight s := by
  cases input with
  | receive stream | receiveQueued k stream => exact hworking.elim
  | step k c =>
    have hstack := getElem?_eq_getElem hworking
    have hsum := ((perm_cons_eraseIdx hstack).map stackWeight).sum_nat
    have hless := advance_weight s.pool c (hok.threads _ (getElem_mem hworking)).2
    have hthreads : ((if (advance s.pool c s.threads[k]).stack.isEmpty = true
          then s.threads.eraseIdx k
          else (advance s.pool c s.threads[k]).stack :: s.threads.eraseIdx k).map stackWeight).sum =
        stackWeight (advance s.pool c s.threads[k]).stack +
          ((s.threads.eraseIdx k).map stackWeight).sum := by
      split_ifs with hnil
      · rw [isEmpty_iff.mp hnil]
        exact (Nat.zero_add _).symm
      · rw [map_cons, sum_cons]
    rw [map_cons, sum_cons] at hsum
    simp only [planeStep, hstack, planeWeight, hthreads]
    simp only [heldWeight, map_append, sum_append] at hless ⊢
    omega
  | resume k =>
    have hpi := getElem?_eq_getElem hworking
    have hheld := heldWeight_perm (perm_cons_eraseIdx hpi)
    rcases (hok.held _ (getElem_mem hworking)).exists_packet with ⟨p, hp⟩
    simp only [planeStep, hpi, planeWeight, map_cons, sum_cons, hp]
    simp only [heldWeight, map_cons, sum_cons] at hheld
    simp only [stackWeight, map_cons, map_nil, sum_cons, sum_nil,
      Frame.weight, heldWeight]
    omega
  | cancel k =>
    have hpi := getElem?_eq_getElem hworking
    have hheld := heldWeight_perm (perm_cons_eraseIdx hpi)
    simp only [heldWeight, map_cons, sum_cons] at hheld
    simp only [planeStep, hpi, planeWeight, heldWeight]
    omega

end Weight

theorem planeRun_ok (s : DataPlane) (hok : PlaneOk s)
    (hsolid : ∀ input ∈ inputs, SolidInput input) : PlaneOk (final planeStep s inputs) ∧
      s.pool.heap.Extends (final planeStep s inputs).pool.heap := by
  induction inputs generalizing s with
  | nil => exact ⟨hok, Ledger.extends_refl _⟩
  | cons input inputs ih =>
    rcases forall_mem_cons.mp hsolid with ⟨hinput, hrest⟩
    rcases planeStep_ok hok hinput with ⟨hnext, hlater⟩
    rcases ih _ hnext hrest with ⟨hfinal, hlater'⟩
    exact ⟨hfinal, hlater.trans hlater'⟩

theorem planeRun_weight (s : DataPlane) (hok : PlaneOk s)
    (hworking : EveryStep planeStep Working s inputs) : inputs.length ≤ planeWeight s := by
  induction inputs generalizing s with
  | nil => exact Nat.zero_le _
  | cons input inputs ih =>
    -- a working step brings in no pipeline, so it keeps the invariant
    have hsolid : SolidInput input := by
      cases input with
      | receive stream | receiveQueued k stream => exact hworking.1.elim
      | step k c | resume k | cancel k => trivial
    have hless := planeStep_weight hok hworking.1
    have hrest := ih _ (planeStep_ok hok hsolid).1 hworking.2
    rw [length_cons]
    omega

theorem init_ok : PlaneOk DataPlane.init :=
  ⟨⟨Ledger.owned_empty, rfl⟩, forall_mem_nil _, forall_mem_nil _⟩

/-- Packet conservation. Packets enter solid pipelines, and everything else is
interleaved in any way. No packet is used or freed that is not there any more.
Every packet was freed once or has one owner, and `packet_count` only depends
on the owners. Without new packets there is only so much left to do. -/
theorem planeRun_conserves (inputs : List PlaneInput)
    (hsolid : ∀ input ∈ inputs, SolidInput input) :
    let s := final planeStep DataPlane.init inputs
    s.pool.heap.fault = false ∧
      (s.pool.heap.freed ++ owners s).Perm (List.range s.pool.heap.next) ∧
      (owners s).Perm s.pool.heap.ids ∧
      s.pool.packetCount = s.pool.heap.live.countP Prod.snd ∧
      (∀ more : List PlaneInput, (∀ input ∈ more, SolidInput input) →
        (owners (final planeStep s more)).Perm (owners s) →
        (final planeStep s more).pool.packetCount = s.pool.packetCount) ∧
      ∀ more : List PlaneInput, EveryStep planeStep Working s more →
        more.length ≤ planeWeight s := by
  rcases planeRun_ok DataPlane.init init_ok hsolid with ⟨hok, _⟩
  have howned := hok.pool.owned
  refine ⟨howned.sound, ?_, howned.holders, hok.pool.count, ?_, ?_⟩
  · exact (howned.holders.append_left _).trans howned.accounts
  · intro more hmore hsame
    rcases planeRun_ok _ hok hmore with ⟨hok', hlater⟩
    -- packets keep their data, so the same owners have the same packets
    have hlive := Ledger.live_perm_of_extends howned hok'.pool.owned hlater hsame
    rw [hok'.pool.count, hok.pool.count, hlive.countP_eq]
  · intro more hworking
    exact planeRun_weight _ hok hworking

/-- A pipeline with two branches. One delays the packet, and the other sends it
to an internal interface. -/
def forkPipe : List Action :=
  [.simple .readseq, .repl [[.delay false, .send false], [.simple .ttlcheck, .send true]]]

theorem forkPipe_solid : Solid forkPipe := by
  have hleaf : ∀ pipe : List Action, pipe ≠ [] → (∀ bs, Action.repl bs ∉ pipe) → Solid pipe :=
    fun pipe hne hno => .intro pipe hne (fun bs hbs => absurd hbs (hno bs))
      (fun bs hbs => absurd hbs (hno bs))
  have hbs : ∀ bs, Action.repl bs ∈ forkPipe →
      bs = [[.delay false, .send false], [.simple .ttlcheck, .send true]] := by
    intro bs h
    simpa [forkPipe] using h
  refine .intro forkPipe (cons_ne_nil _ _) ?_ ?_
  · intro bs h
    rw [hbs bs h]
    exact cons_ne_nil _ _
  · intro bs h b hb
    rw [hbs bs h] at hb
    simp only [mem_cons, not_mem_nil, or_false] at hb
    rcases hb with rfl | rfl <;> exact hleaf _ (by simp) (by simp)

/-- The conditions of an ordinary packet. -/
def ordinary : Conditions :=
  ⟨true, false, false, true, false⟩

/-- A packet goes through both branches, and the delayed copy is resumed while
the other one is still under way. -/
theorem planeRun_conserves_fork :
    let run : List PlaneInput :=
      [.receive (some forkPipe), .step 0 ordinary, .step 0 ordinary, .step 0 ordinary,
        .step 0 ordinary, .step 0 ordinary, .resume 0, .step 1 ordinary, .step 0 ordinary]
    (∀ input ∈ run, SolidInput input) ∧
      (final planeStep DataPlane.init run).pool.heap.fault = false ∧
      (final planeStep DataPlane.init run).pool.packetCount =
        (final planeStep DataPlane.init run).pool.heap.live.countP Prod.snd := by
  intro run
  have hsolid : ∀ input ∈ run, SolidInput input := by
    refine forall_mem_cons.mpr ⟨?_, ?_⟩
    · intro pipe hpipe
      rw [← Option.some.inj hpipe]
      exact forkPipe_solid
    · simp [SolidInput]
  have hrun := planeRun_conserves run hsolid
  exact ⟨hsolid, hrun.1, hrun.2.2.2.1⟩

end Dnt
