import Dnt.Theory.Delay.Queue

/-!
# Packets with Equal Deadlines

A new packet is put in front of all packets with its deadline that are in the list, and
from then on their order does not change.

## Main definitions

* `popPacket`, `popNone`: The inputs of a thread that takes a packet, or finds none.

## Theorems

* `delayRun_order_iff`: Two packets with equal deadlines leave in the order in which they
  came if and only if the first of them had left when the second one came.
-/

namespace Dnt

open Mealy

variable {ι : Type*}

variable {b : DelayElem ι} {t : DelayThread ι}

open List

theorem sublist_queueLink {n a : DelayElem ι} {l : List (DelayElem ι)} (ha : a ∈ l)
    (hdeadline : a.deadline = n.deadline) : [n, a].Sublist (queueLink n l) := by
  induction l with
  | nil => cases ha
  | cons iter rest ih =>
    unfold queueLink
    split_ifs with hgt
    · -- the walk goes on, so this is not the packet with the same deadline
      rcases mem_cons.mp ha with rfl | ha
      · rw [hdeadline] at hgt
        exact absurd hgt (timespecGt_asymm hgt)
      · exact (ih ha).cons iter
    · exact (singleton_sublist.mpr ha).cons_cons n

theorem delayStep_ordered (t : DelayThread ι) (input : DelayInput ι) :
    delayStock.Ordered t (delayStep t input) := by
  have hmove := delayStep_move t input
  generalize delayStep t input = r at hmove
  cases hmove with
  | push p now later =>
    have hlink := sublist_orderedInsert (r := DeadlineLe) (newDelayElem t.nextAddr p now)
      t.queue
    rw [← queueLink_eq_orderedInsert] at hlink
    exact hlink
  | send now _ =>
    cases hqueue : t.queue with
    | nil =>
      rw [queueSendFirst_nil now hqueue]
      exact List.Sublist.refl _
    | cons f rest =>
      rw [queueSendFirst_cons now hqueue, Stock.Ordered]
      simp only [delayStock, hqueue]
      exact List.Sublist.refl _
  | flush =>
    have hall : t.queue.Sublist ((queueSendAll t.queue).map Sending.elem ++ []) := by
      rw [elem_queueSendAll, append_nil]
    exact hall
  | turn phase _ => exact List.Sublist.refl _

theorem delayRun_ordered (inputs : List (DelayInput ι)) :
    t.queue.Sublist (delaySent (outputs delayStep t inputs) ++ (final delayStep t inputs).queue) :=
  delayStock.run_ordered (fun _ => True) (fun t input _ => ⟨trivial, delayStep_ordered t input⟩) t
    trivial inputs

theorem delayStep_taken {input : DelayInput ι} (h : (delayStep t input).2.taken = some b) :
    (delayStep t input).1.queue = queueLink b t.queue ∧ (delayStep t input).2.sent = [] := by
  have hmove := delayStep_move t input
  generalize delayStep t input = r at h hmove
  cases hmove with
  | push p now later =>
    cases h
    exact ⟨rfl, rfl⟩
  | send now _ =>
    cases hqueue : t.queue with
    | nil =>
      rw [queueSendFirst_nil now hqueue] at h
      cases h
    | cons f rest =>
      rw [queueSendFirst_cons now hqueue] at h
      cases h
  | flush | turn phase _ => cases h

section Pair

variable (before : List (DelayInput ι)) (input : DelayInput ι) (after : List (DelayInput ι))

theorem delaySent_cut : delaySent (outputs delayStep newDelayThread (before ++ input :: after)) =
      delaySent (outputs delayStep newDelayThread before) ++
        ((delayStep (final delayStep newDelayThread before) input).2.sent.map Sending.elem ++
          delaySent (outputs delayStep
            (delayStep (final delayStep newDelayThread before) input).1 after)) := by
  rw [outputs_append, outputs_cons]
  simp [delaySent]

theorem notMem_delaySent_before
    (hb : (delayStep (final delayStep newDelayThread before) input).2.taken = some b) :
    b ∉ delaySent (outputs delayStep newDelayThread before) := by
  intro hsent
  have htaken : b ∈ delayTaken (outputs delayStep newDelayThread before) :=
    (perm_delayTaken before).mem_iff.mpr (mem_append_left _ hsent)
  have hnodup := nodup_delayTaken (before ++ [input])
  rw [outputs_append, outputs_cons, outputs_nil] at hnodup
  simp only [delayTaken, flatMap_append, flatMap_cons, flatMap_nil, hb,
    Option.toList_some, append_nil] at hnodup
  exact (nodup_append.mp hnodup).2.2 b htaken b (mem_singleton_self b) rfl

/-- Two packets with equal deadlines, the first of them taken before the second one, leave in
this order if and only if the first one had left when the second one was taken. -/
theorem delayRun_order_iff (a b : DelayElem ι)
    (ha : a ∈ delayTaken (outputs delayStep newDelayThread before))
    (hb : (delayStep (final delayStep newDelayThread before) input).2.taken = some b)
    (hdeadline : a.deadline = b.deadline)
    (hsent : b ∈ delaySent (outputs delayStep newDelayThread (before ++ input :: after))) :
    [a, b].Sublist (delaySent (outputs delayStep newDelayThread (before ++ input :: after))) ↔
      a ∈ delaySent (outputs delayStep newDelayThread before) := by
  have hcut := delaySent_cut before input after
  constructor
  · intro horder
    by_contra hnot
    -- the first one is still in the list, and the second one is put in front of it
    have hqueue : a ∈ (final delayStep newDelayThread before).queue :=
      (mem_append.mp ((perm_delayTaken before).mem_iff.mp ha)).resolve_left hnot
    obtain ⟨hlinked, -⟩ := delayStep_taken hb
    have hfront := sublist_queueLink hqueue hdeadline
    rw [← hlinked] at hfront
    have hleave := hfront.trans (delayRun_ordered after)
    have hnodup := (perm_delayTaken (before ++ input :: after)).nodup_iff.mp
      (nodup_delayTaken (before ++ input :: after))
    refine Stock.not_sublist_swap hnodup (horder.trans (sublist_append_left _ _)) ?_
    rw [hcut, final_append, final_cons, append_assoc, append_assoc]
    exact (hleave.trans (sublist_append_right _ _)).trans (sublist_append_right _ _)
  · intro hleft
    rw [hcut] at hsent ⊢
    have hrest := (mem_append.mp hsent).resolve_left
      (notMem_delaySent_before before input hb)
    exact (singleton_sublist.mpr hleft).append (singleton_sublist.mpr hrest)

end Pair

/-- A packet that was received at 100 seconds and is delayed by 20 milliseconds. -/
def delayedPacket (pi : Nat) : DelayedPacket Nat :=
  ⟨pi, "a", timespecToTsntstamp ⟨100, 0⟩, ⟨0, 20000000⟩⟩

def delayedElem (pi : Nat) : DelayElem Nat :=
  ⟨pi, delayedPacket pi, ⟨100, 20000000⟩⟩

def popPacket (pi : Nat) : DelayInput Nat :=
  .pop (some (.packet (delayedPacket pi))) ⟨100, 1000⟩ ⟨100, 1000⟩

def popNone : DelayInput Nat :=
  .pop none ⟨100, 20000000⟩ ⟨100, 20000000⟩

/-- The first packet is sent before the second one comes. -/
theorem delayRun_order_apart :
    (delayedElem 0).deadline = (delayedElem 1).deadline ∧
      [delayedElem 0, delayedElem 1].Sublist
        (delaySent (outputs delayStep newDelayThread
          ([popPacket 0, popNone] ++ popPacket 1 :: [popNone]))) :=
  ⟨rfl, (delayRun_order_iff [popPacket 0, popNone] (popPacket 1) [popNone] (delayedElem 0)
    (delayedElem 1) (by decide) (by decide) rfl (by decide)).mpr (by decide)⟩

/-- Both packets come before the first one is sent, and the second one is sent first. -/
theorem delayRun_order_reversed :
    (delayedElem 0).deadline = (delayedElem 1).deadline ∧
      delayTaken (outputs delayStep newDelayThread
        [popPacket 0, popPacket 1, popNone, popNone]) = [delayedElem 0, delayedElem 1] ∧
      delaySent (outputs delayStep newDelayThread
        [popPacket 0, popPacket 1, popNone, popNone]) = [delayedElem 1, delayedElem 0] := by
  decide

end Dnt
