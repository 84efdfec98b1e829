import Dnt.Theory.Pof.Buffer

/-!
# Wakeups and Order

The worker should wake up for every packet that can be forwarded, and forward no
packet early without a deadline. The codes added to the eventfd are meant as bits,
but the eventfd adds them: two packets in order make a code that the worker ignores,
and five make one with the timeout bit. On a timeout the worker forwards the packet it
was waiting for, and that is not always the lowest one in the buffer.

## Main definitions

* `WakesUp`, `SumReadable`: An event is handled, and its sum of codes does no harm.
* `KeepsOrder`, `WaitsForLowest`: No packet is left behind that should come before, and the
  worker waits for the lowest one.

## Theorems

* `pofRun_wakesUp_iff`: The events of a run are handled just if all sums do no harm.
* `pofRun_keepsOrder_iff`: A run keeps the order just if its timeouts are for the lowest.
-/

namespace Dnt

open Mealy

variable {ι : Type*}
variable {pof : Pof ι}

/-- Some packet in the buffer has waited long enough. -/
def DeadlineExpired (pof : Pof ι) (now : Nat) : Prop :=
  ∃ e ∈ pof.queue, e.forwardTime ≤ now

/-- Handling a pending event. Afterwards the eventfd is zero and nothing in the
buffer can be forwarded. No packet is forwarded too early on the way, unless
a deadline has expired. -/
def WakesUp (pof : Pof ι) : PofInput ι → Prop
  | .event now => 0 < pof.evfd →
      (pofStep pof (.event now)).1.evfd = 0 ∧
      Idle (pofStep pof (.event now)).1 ∧
      ∀ f ∈ (pofStep pof (.event now)).2.forwarded, InOrder f ∨ DeadlineExpired f.pof now
  | _ => True

/-- The sum of the pending codes does no harm. If the bit for packets in order
is clear, there is nothing to forward. If it is set along with the timeout
bit, the packet the worker starts with can go. -/
def SumReadable (pof : Pof ι) : PofInput ι → Prop
  | .event now => 0 < pof.evfd →
      (pof.evfd &&& pofInOrderPkt = 0 → Idle pof) ∧
      (pof.evfd &&& pofInOrderPkt ≠ 0 → pof.evfd &&& pofTimeout ≠ 0 →
        ∀ pe ∈ pktToSend pof pof.evfd, pe.seq ≤ pof.lastSent + 1 ∨ DeadlineExpired pof now)
  | _ => True

/-- Forwarding a packet leaves none behind that should come before it. -/
def KeepsOrder (pof : Pof ι) (input : PofInput ι) : Prop :=
  ∀ f ∈ (pofStep pof input).2.forwarded, Lowest f

/-- The packet the worker waits for, once it does not take any number, is the
lowest one. -/
def NextLowest (pof : Pof ι) : Prop :=
  pof.takeAny = false → ∀ pe ∈ pof.nextToForward, ∀ e ∈ pof.queue, pe.seq ≤ e.seq

/-- Whenever the worker acts on a timeout, the packet it waits for is the lowest
one. -/
def WaitsForLowest (pof : Pof ι) : PofInput ι → Prop
  | .arrive _ _ _ => True
  | .event _ => pof.evfd &&& pofInOrderPkt ≠ 0 → pof.evfd &&& pofTimeout ≠ 0 → NextLowest pof
  | .timeout _ => pof.queueLen ≠ 0 → NextLowest pof

section Decidable

instance (pof : Pof ι) : Decidable (Idle pof) := by
  unfold Idle
  infer_instance

instance (pof : Pof ι) (now : Nat) : Decidable (DeadlineExpired pof now) := by
  unfold DeadlineExpired
  infer_instance

instance (f : Forwarding ι) : Decidable (InOrder f) := by
  unfold InOrder
  infer_instance

instance (f : Forwarding ι) : Decidable (Lowest f) := by
  unfold Lowest
  infer_instance

instance (pof : Pof ι) : Decidable (NextLowest pof) := by
  unfold NextLowest
  infer_instance

instance (pof : Pof ι) (input : PofInput ι) : Decidable (WakesUp pof input) :=
  match input with
  | .arrive .. | .event _ | .timeout _ => by dsimp only [WakesUp]; infer_instance

instance (pof : Pof ι) (input : PofInput ι) : Decidable (SumReadable pof input) :=
  match input with
  | .arrive .. | .event _ | .timeout _ => by dsimp only [SumReadable]; infer_instance

instance (pof : Pof ι) (input : PofInput ι) : Decidable (KeepsOrder pof input) := by
  unfold KeepsOrder
  infer_instance

instance (pof : Pof ι) (input : PofInput ι) : Decidable (WaitsForLowest pof input) :=
  match input with
  | .arrive .. | .event _ | .timeout _ => by dsimp only [WaitsForLowest]; infer_instance

end Decidable

theorem pofEvent_ignored (pof : Pof ι) (hbit : pof.evfd &&& pofInOrderPkt = 0) :
    pofEvent pof = ({ pof with evfd := 0 }, []) := by
  unfold pofEvent
  exact if_neg (not_not_intro hbit)

theorem pofEvent_handled (pof : Pof ι) (hbit : pof.evfd &&& pofInOrderPkt ≠ 0) :
    pofEvent pof = pofTryForward { pof with evfd := 0 } pof.evfd := by
  unfold pofEvent
  exact if_pos hbit

theorem wakesUp_iff (hok : PofOk pof) (input : PofInput ι) :
    WakesUp pof input ↔ SumReadable pof input := by
  cases input with
  | arrive pi sequence now | timeout now => exact Iff.rfl
  | event now =>
    have hread := hok.read.toBufferOk
    have hzero := (@pofEvent_drained _ pof hok).evfd
    rcases pofWait_spec (pofEvent pof).1 now with ⟨next, wakeup, heq, _⟩
    unfold WakesUp SumReadable
    refine imp_congr_right fun _ => ?_
    simp only [pofStep, heq, hzero, true_and]
    by_cases hbit : pof.evfd &&& pofInOrderPkt = 0
    · -- the event is ignored, and the buffer stays as it is
      simp only [pofEvent_ignored pof hbit, hbit, ne_eq, not_true_eq_false, false_implies,
        and_true, List.not_mem_nil, implies_true, true_implies]
      exact Iff.rfl
    · -- the loop runs until nothing can be forwarded
      have hidle := @pofTryForward_idle _ { pof with evfd := 0 } pof.evfd hread hok.next
      have hall := @forall_pofTryForward_iff _ { pof with evfd := 0 }
        (fun f => InOrder f ∨ DeadlineExpired f.pof now)
        (fun f hf _ => Or.inl hf) pof.evfd hread hok.next
      rw [pofEvent_handled pof hbit, hall]
      refine and_congr (iff_of_true hidle fun h => absurd h hbit) ?_
      exact ⟨fun h _ => h, fun h => h hbit⟩

/-- Wakeups over a run. No wakeup is missed and no packet is forwarded early if
and only if every sum that is read is harmless. -/
theorem pofRun_wakesUp_iff (maxDelay takeAnyTime queueMaxLen start : Nat)
    (inputs : List (PofInput ι)) :
    EveryStep pofStep WakesUp
        (pofInit (newPof maxDelay takeAnyTime queueMaxLen) start) inputs ↔
      EveryStep pofStep SumReadable
        (pofInit (newPof maxDelay takeAnyTime queueMaxLen) start) inputs :=
  everyStep_iff_of_invariant PofOk WakesUp SumReadable
    (fun _ input hok _ => (pofStep_accounts hok input).ok)
    (fun _ input hok => wakesUp_iff hok input)
    (pofInit_ok maxDelay takeAnyTime queueMaxLen start).1 inputs

/-- Three packets, the last two together: one event for the first, and one with
the sum three for the others. -/
theorem pofRun_wakesUp_three_packets :
    EveryStep pofStep WakesUp (pofInit (newPof 100 1000 8 : Pof Nat) 0)
      [.arrive 0 1 0, .event 1, .arrive 1 2 2, .arrive 2 3 3, .event 4] :=
  (pofRun_wakesUp_iff 100 1000 8 0 _).mpr (by decide +kernel)

/-- Two packets in order make the sum two, which is ignored although the first packet
can go. Five make the sum five, which lets one of them out although it is early. -/
theorem pofEvent_sum_misread :
    (EveryStep pofStep PofPossible (pofInit (newPof 100 1000 8 : Pof Nat) 0)
        [.arrive 0 1 0, .arrive 1 2 1, .event 2] ∧
      ¬ EveryStep pofStep WakesUp (pofInit (newPof 100 1000 8 : Pof Nat) 0)
        [.arrive 0 1 0, .arrive 1 2 1, .event 2]) ∧
    EveryStep pofStep PofPossible (pofInit (newPof 100 1000 8 : Pof Nat) 0)
        [.arrive 0 10 0, .arrive 1 11 1, .arrive 2 12 2, .arrive 3 13 3, .arrive 4 14 4,
          .event 5] ∧
      ¬ EveryStep pofStep WakesUp (pofInit (newPof 100 1000 8 : Pof Nat) 0)
        [.arrive 0 10 0, .arrive 1 11 1, .arrive 2 12 2, .arrive 3 13 3, .arrive 4 14 4,
          .event 5] := by
  decide +kernel

/-- The packet a timeout lets out is the head of the buffer, which is the
lowest, or the one the worker waited for. -/
theorem lowest_pktToSend_iff (hok : PofOk pof) {event : Nat} (hflag : event &&& pofTimeout ≠ 0) :
    (∀ pe, pktToSend pof event = some pe → Lowest ⟨pof, pe⟩) ↔ NextLowest pof := by
  unfold pktToSend NextLowest
  -- the saved packet is taken, or the head is and there is nothing to ask
  by_cases hsaved : pof.takeAny = false ∧ pof.nextToForward.isSome = true
  · rw [if_pos ⟨hflag, hsaved⟩]
    exact ⟨fun h _ => h, fun h => h hsaved.1⟩
  · rw [if_neg fun hand => hsaved hand.2]
    refine iff_of_true ?_ ?_
    · intro pe hpe
      exact lowest_head pof hok.toBufferOk pe hpe
    · intro hany pe hpe
      exact absurd ⟨hany, Option.isSome_of_mem hpe⟩ hsaved

theorem keepsOrder_iff (hok : PofOk pof) (input : PofInput ι) :
    KeepsOrder pof input ↔ WaitsForLowest pof input := by
  cases input with
  | arrive pi sequence now =>
    refine iff_of_true ?_ trivial
    intro f hf
    exact absurd hf List.not_mem_nil
  | event now =>
    have hread := hok.read
    have hall := forall_pofTryForward_iff (fun f _ hf => hf) pof.evfd hread.toBufferOk hok.next
    unfold KeepsOrder WaitsForLowest
    simp only [pofStep]
    by_cases hbit : pof.evfd &&& pofInOrderPkt = 0
    · rw [pofEvent_ignored pof hbit]
      exact iff_of_true (List.forall_mem_nil _) fun h => absurd hbit h
    · rw [pofEvent_handled pof hbit, hall]
      constructor
      · intro h _ hflag
        exact (lowest_pktToSend_iff hread hflag).mp (h hflag)
      · intro h hflag
        exact (lowest_pktToSend_iff hread hflag).mpr (h hbit hflag)
  | timeout now =>
    have hall := forall_pofTryForward_iff (fun f _ hf => hf) pofTimeout hok.toBufferOk hok.next
    have hflag : pofTimeout &&& pofTimeout ≠ 0 := by decide
    unfold KeepsOrder WaitsForLowest
    simp only [pofStep]
    by_cases hempty : pof.queueLen = 0
    · rw [pofExpire_empty hok.toBufferOk hempty]
      exact iff_of_true (List.forall_mem_nil _) fun h => absurd hempty h
    · rw [pofExpire_filled hempty, hall]
      constructor
      · intro h _
        exact (lowest_pktToSend_iff hok hflag).mp (h hflag)
      · intro h _
        exact (lowest_pktToSend_iff hok hflag).mpr (h hempty)

/-- Order over a run. No packet overtakes a smaller one in the buffer if and
only if the worker waits for the lowest packet whenever it acts on a
timeout. -/
theorem pofRun_keepsOrder_iff (maxDelay takeAnyTime queueMaxLen start : Nat)
    (inputs : List (PofInput ι)) :
    EveryStep pofStep KeepsOrder
        (pofInit (newPof maxDelay takeAnyTime queueMaxLen) start) inputs ↔
      EveryStep pofStep WaitsForLowest
        (pofInit (newPof maxDelay takeAnyTime queueMaxLen) start) inputs :=
  everyStep_iff_of_invariant PofOk KeepsOrder WaitsForLowest
    (fun _ input hok _ => (pofStep_accounts hok input).ok)
    (fun _ input hok => keepsOrder_iff hok input)
    (pofInit_ok maxDelay takeAnyTime queueMaxLen start).1 inputs

/-- Packet 5 comes before packet 7, and the worker waits for both in turn. -/
theorem pofRun_keepsOrder_in_turn :
    EveryStep pofStep KeepsOrder (pofInit (newPof 100 1000 8 : Pof Nat) 0)
      [.arrive 0 1 0, .event 1, .arrive 1 5 10, .event 10, .timeout 110, .arrive 2 7 120,
        .event 120, .timeout 220] :=
  (pofRun_keepsOrder_iff 100 1000 8 0 _).mpr (by decide +kernel)

/-- Packet 7 comes before packet 5, so its deadline is the earlier one, and it is
forwarded while packet 5 is still in the buffer. -/
theorem pofTimeout_overtakes :
    EveryStep pofStep PofPossible (pofInit (newPof 100 1000 8 : Pof Nat) 0)
        [.arrive 0 1 0, .event 1, .arrive 1 7 10, .event 10, .arrive 2 5 20, .event 20,
          .timeout 110] ∧
      ¬ EveryStep pofStep KeepsOrder (pofInit (newPof 100 1000 8 : Pof Nat) 0)
        [.arrive 0 1 0, .event 1, .arrive 1 7 10, .event 10, .arrive 2 5 20, .event 20,
          .timeout 110] := by
  decide +kernel

end Dnt
