import Dnt.Theory.Pof.Deadline

/-!
# Taking Any Number

After the start, and when no packet has come for some time, the next packet should
go on at once, whatever its number, and the order should continue from it. But the
forwarding loop compares its number with the last one sent. One with a lower number goes
on, but the last number stays what it was. One with a higher number waits until its
deadline.

## Main definitions

* `Restarts`: The packet is forwarded, and the order goes on from it.

## Theorems

* `pofRun_restarts_iff`: A packet starts the order anew just if it has the next number.
-/

namespace Dnt

open Mealy

variable {ι : Type*}
variable {pof : Pof ι}

/-- `ppoll` gives up when the eventfd is clear. A packet that comes before the worker has
the lock is in the buffer then. -/
def GivesUp (pof : Pof ι) : PofInput ι → Prop
  | .timeout _ => pof.queue = [] → pof.evfd = 0
  | _ => True

instance (pof : Pof ι) (input : PofInput ι) : Decidable (GivesUp pof input) :=
  match input with
  | .arrive .. | .event _ | .timeout _ => by dsimp only [GivesUp]; infer_instance

/-- A packet arrives and the worker handles the event. The packet is forwarded, not any
number is taken any more, and its number is the last one sent. -/
def Restarts (pof : Pof ι) (pi : ι) (sequence arrival now : Nat) : Prop :=
  let kept := (pofStep pof (.arrive pi sequence arrival)).1
  let handled := pofStep kept (.event now)
  handled.2.forwarded.map Forwarding.pe = [newPofElem pof pi sequence arrival] ∧
    handled.1.takeAny = false ∧ handled.1.lastSent = sequence % 65536

instance [DecidableEq ι] (pof : Pof ι) (pi : ι) (sequence arrival now : Nat) :
    Decidable (Restarts pof pi sequence arrival now) := by
  unfold Restarts
  infer_instance

/-! ## One packet -/

theorem pofEvent_kept (hnil : pof.queue = []) (hlen : pof.queueLen = 0) (hevfd : pof.evfd = 0)
    (htake : pof.takeAny = true) (pi : ι) (sequence arrival : Nat) :
    pofEvent { pofKept pof pi sequence arrival with clock := arrival } =
      let pe := newPofElem pof pi sequence arrival
      let kept := { pofKept pof pi sequence arrival with evfd := 0, clock := arrival }
      if sequence % 65536 ≤ pof.lastSent + 1 then
        (pofSent kept (decide (sequence % 65536 ≠ pof.lastSent + 1)) pe, [⟨kept, pe⟩])
      else (kept, []) := by
  have hread : { pofKept pof pi sequence arrival with clock := arrival }.evfd = pofInOrderPkt := by
    simp [pofKept, hevfd, htake]
  have hbit : { pofKept pof pi sequence arrival with clock := arrival }.evfd &&& pofInOrderPkt ≠
      0 := by
    rw [hread]
    decide
  rw [pofEvent_handled _ hbit, hread]
  refine (@pofTryForward_single _ _ (newPofElem pof pi sequence arrival) ?_ ?_).trans ?_
  · simp only [pofKept, hnil, pofLink]
  · simp only [pofKept, hlen]
  · simp [pofKept, htake, newPofElem]

theorem restarts_of_event {kept : Pof ι} {pi : ι} {sequence arrival now : Nat} {out : PofOutput ι}
    (harrive : pofStep pof (.arrive pi sequence arrival) = (kept, out)) :
    Restarts pof pi sequence arrival now ↔
      (pofEvent kept).2.map Forwarding.pe = [newPofElem pof pi sequence arrival] ∧
        (pofEvent kept).1.takeAny = false ∧ (pofEvent kept).1.lastSent = sequence % 65536 := by
  obtain ⟨next, wakeup, hwait, -⟩ := pofWait_spec (pofEvent kept).1 now
  unfold Restarts
  rw [harrive]
  simp only [pofStep, hwait]

theorem restarts_iff (hok : PofOk pof) (hnil : pof.queue = []) (hevfd : pof.evfd = 0)
    (htake : pof.takeAny = true) (pi : ι) {sequence : Nat} (arrival now : Nat)
    (hoam : seqIsOam sequence = false) : Restarts pof pi sequence arrival now ↔
      0 < pof.queueMaxLen ∧ sequence % 65536 = pof.lastSent + 1 := by
  have hlen : pof.queueLen = 0 := hok.queueLen_eq_zero_iff.mpr hnil
  rcases pofStep_arrive_cases pof pi sequence arrival with
    ⟨hoam', -⟩ | ⟨-, hfull, heq⟩ | ⟨-, hroom, heq⟩
  · rw [hoam] at hoam'
    cases hoam'
  · -- a buffer without any room: nothing is reported, and nothing forwarded
    have hbit : { pof with clock := arrival }.evfd &&& pofInOrderPkt = 0 := by
      simp [hevfd]
    rw [restarts_of_event heq, pofEvent_ignored _ hbit]
    refine iff_of_false ?_ ?_
    · rintro ⟨hforwarded, -⟩
      cases hforwarded
    · rintro ⟨hpos, -⟩
      omega
  · rw [restarts_of_event heq, pofEvent_kept hnil hlen hevfd htake]
    by_cases hlate : sequence % 65536 ≤ pof.lastSent + 1
    · have hkept := (pofKept_ok hok pi sequence arrival hroom).read.at_clock arrival
      have hmem : newPofElem pof pi sequence arrival ∈
          (pofKept pof pi sequence arrival).queue := by
        simp [pofKept, hnil, pofLink]
      simp only [if_pos hlate]
      rw [pofSent_eq _ _ _ hkept.toBufferOk hmem]
      simp only [List.map_cons, List.map_nil, true_and, decide_eq_false_iff_not, not_not]
      constructor
      · rintro ⟨hnext, -⟩
        exact ⟨hlen ▸ hroom, hnext⟩
      · rintro ⟨-, hnext⟩
        refine ⟨hnext, ?_⟩
        change max pof.lastSent (sequence % 65536) = sequence % 65536
        omega
    · -- an early packet stays in the buffer
      simp only [if_neg hlate, List.map_nil]
      refine iff_of_false ?_ ?_
      · rintro ⟨hforwarded, -⟩
        cases hforwarded
      · rintro ⟨-, hnext⟩
        omega

/-! ## All runs -/

/-- When the buffer is empty and takes any number, the eventfd is clear. -/
def EventClear (pof : Pof ι) : Prop :=
  pof.takeAny = true → pof.queue = [] → pof.evfd = 0

theorem pofWait_eventClear (h : EventClear pof) (now : Nat) : EventClear (pofWait pof now) := by
  obtain ⟨next, wakeup, hwait, -⟩ := pofWait_spec pof now
  rw [hwait]
  exact h

theorem pofStep_eventClear (hok : PofOk pof) (h : EventClear pof) {input : PofInput ι}
    (hgives : GivesUp pof input) : EventClear (pofStep pof input).1 := by
  cases input with
  | arrive pi sequence now =>
    rcases pofStep_arrive_cases pof pi sequence now with ⟨-, heq⟩ | ⟨-, -, heq⟩ | ⟨-, hroom, heq⟩
    · rw [heq]
      exact h
    · rw [heq]
      exact h
    · -- the packet is in the buffer
      rw [heq]
      intro _ hnil
      have hlen := (pofKept_ok hok pi sequence now hroom).length
      rw [show (pofKept pof pi sequence now).queue = [] from hnil] at hlen
      cases hlen
  | event now =>
    refine pofWait_eventClear ?_ now
    exact fun _ _ => (pofEvent_drained hok).evfd
  | timeout now =>
    refine pofWait_eventClear ?_ now
    by_cases hzero : pof.queueLen = 0
    · -- the worker gives up: the input says that nothing is reported at this time
      rw [pofExpire_empty hok.toBufferOk hzero]
      exact fun _ hnil => hgives hnil
    · -- a packet is let out, and not any number is taken after it
      obtain ⟨pe, -, hpkt, -⟩ := pofExpire_lets_out hok hzero
      intro htake
      rw [pofExpire_filled hzero, pofTryForward_takeAny hzero (by decide) hpkt] at htake
      cases htake

end Dnt
