import Dnt.Core.ConfObject

/-!
# The Timeout of a Recovery

A recovery is reset when it has not passed a packet for the reset time. Its thread
counts the ticks down, every packet that is passed makes it begin again, and there
is no second reset before the next packet.

What the countdown begins with is computed in 32 bits, in thousandths of a tick. For
a reset time of 4294967 milliseconds or more it is the remainder, and for this very
reset time there is none at all.

## Main definitions

* `ticksFor`: What the countdown begins with.
* `CountsDown`: The countdown when some ticks have elapsed.
* `KeepsTime`: The recovery is reset just when the reset time has elapsed.

## Theorems

* `recovery_keepsTime_iff`: A reset time is kept just if it is at most 4294966 milliseconds.
-/

namespace Dnt

open Mealy

variable {n resetMsec : Nat} {s : Option MonitoredRecovery} {r : SequenceRecovery}

/-- What the countdown begins with. -/
def ticksFor (resetMsec : Nat) : Nat :=
  (resetMsec * frerTicksPerSec + 999) % 2 ^ 32 / 1000

/-- What the timeout of a recovery depends on. -/
structure Countdown where
  resetMsec : Nat
  individualRecovery : Bool
  remainingTicks : Int
  deriving DecidableEq, Repr

def SequenceRecovery.countdown (r : SequenceRecovery) : Countdown :=
  ⟨r.resetMsec, r.individualRecovery, r.remainingTicks⟩

/-! ## Packets -/

def Countdown.after (c : Countdown) (passed : Bool) : Countdown :=
  if passed = true then { c with remainingTicks := ticksFor c.resetMsec } else c

open List

theorem recover_countdown (packetSeq : Nat) (init : Bool) (hind : r.individualRecovery = false) :
    (recover r packetSeq init).2.countdown = r.countdown.after (recover r packetSeq init).1 := by
  -- a packet is discarded without touching the countdown
  have hno : ¬ r.individualRecovery = true := Bool.eq_false_iff.mp hind
  unfold recover
  by_cases htake : (r.space init).takeAny = true
  · rw [if_pos htake]
    cases init <;> rfl
  rw [if_neg htake]
  by_cases hout : calcDelta packetSeq (r.space init).recvSeq > r.historyLength ∨
      calcDelta packetSeq (r.space init).recvSeq ≤ -r.historyLength
  · rw [if_pos hout]
    dsimp only
    rw [if_neg hno]
    rfl
  rw [if_neg hout]
  by_cases hneg : calcDelta packetSeq (r.space init).recvSeq ≤ 0
  · rw [if_pos hneg]
    by_cases hbit : (r.space init).history.getD
        (-calcDelta packetSeq (r.space init).recvSeq).toNat false = false
    · rw [if_pos hbit]
      cases init <;> rfl
    · rw [if_neg hbit]
      dsimp only
      rw [if_neg hno]
      rfl
  · rw [if_neg hneg]
    cases init <;> rfl

theorem matchSeqRecovery_countdown (seq : Nat) (hind : r.individualRecovery = false) :
    (matchSeqRecovery r seq).2.countdown = r.countdown.after (matchSeqRecovery r seq).1 := by
  -- a discarded packet would begin the countdown again in an individual recovery only
  have hno : ¬ r.individualRecovery = true := Bool.eq_false_iff.mp hind
  unfold matchSeqRecovery
  dsimp only
  split_ifs
  all_goals rfl

theorem seamlessRestarts_countdown (r : SequenceRecovery) (seq : Nat) :
    (seamlessRestarts r seq).countdown = r.countdown := by
  unfold seamlessRestarts
  dsimp only
  split_ifs <;> rfl

/-- A packet that is passed begins the countdown again, and one that is discarded does
nothing to it. -/
theorem seqRecovery_countdown (seq : Nat) (hind : r.individualRecovery = false) :
    (seqRecovery r seq).2.countdown = r.countdown.after (seqRecovery r seq).1 := by
  unfold seqRecovery
  cases r.algorithm with
  | rcvyMatch => exact matchSeqRecovery_countdown seq hind
  | rcvyVector => exact recover_countdown (seq % 65536) false hind
  | rcvySeamlessVector =>
    have hsame := seamlessRestarts_countdown r seq
    have hrecover := recover_countdown (seq % 65536)
      (isInitPacket r seq) ((congrArg Countdown.individualRecovery hsame).trans hind)
    rw [hsame] at hrecover
    exact hrecover

/-! ## Ticks -/

theorem seqRecoveryReset_countdown : (seqRecoveryReset r).countdown = r.countdown := by
  unfold seqRecoveryReset
  dsimp only
  cases r.algorithm <;> rfl

/-- What the thread does besides counting keeps the countdown, and what kind of recovery it
is. -/
structure SameCountdown (r r' : MonitoredRecovery) : Prop where
  countdown : r'.recovery.countdown = r.recovery.countdown
  oamSessionId : r'.oamSessionId = r.oamSessionId

theorem SameCountdown.trans {r r' r'' : MonitoredRecovery} (h : SameCountdown r r')
    (h' : SameCountdown r' r'') : SameCountdown r r'' :=
  ⟨h'.countdown.trans h.countdown, h'.oamSessionId.trans h.oamSessionId⟩

theorem reportPackets_sameCountdown (r : MonitoredRecovery) :
    SameCountdown r (reportPackets r).1 := by
  unfold reportPackets
  dsimp only
  split_ifs <;> exact ⟨rfl, rfl⟩

theorem latentErrorTest_sameCountdown (r : MonitoredRecovery) :
    ∃ r' alerts, latentErrorTest r = some (r', alerts) ∧ SameCountdown r r' := by
  rcases latentErrorTest_cases r with ⟨-, heq⟩ | ⟨hon, errors, heq⟩
  · exact ⟨r, [], heq, rfl, rfl⟩
  · obtain ⟨r', alerts, hdiagnostic, hcase⟩ :=
      @recoveryDiagnostic_case { r with latentErrors := errors } hon.1
    refine ⟨r', alerts, heq.trans hdiagnostic, ?_⟩
    cases hcase with
    | nothing _ | expected _ _ _ _ | more _ _ _ _ => exact ⟨rfl, rfl⟩
    | missing _ _ _ _ =>
      have hsame := reportPackets_sameCountdown { r with latentErrors := errors }
      exact ⟨hsame.countdown, hsame.oamSessionId⟩

theorem latentResetTick_sameCountdown (r : MonitoredRecovery) :
    SameCountdown r (latentResetTick r) := by
  unfold latentResetTick
  dsimp only
  split_ifs <;> exact ⟨rfl, rfl⟩

theorem latentErrorTick_goesOn (r : MonitoredRecovery) (reset : Bool) :
    ∃ r' alerts, latentErrorTick r reset = .goesOn r' reset alerts ∧ SameCountdown r r' := by
  unfold latentErrorTick
  dsimp only
  split_ifs with htest
  · obtain ⟨r', alerts, heq, hsame⟩ := latentErrorTest_sameCountdown
      { r with latentErrorCounter := r.latentErrorCounter + (1000 / frerTicksPerSec : Nat) }
    rw [heq]
    exact ⟨_, alerts, rfl, hsame.countdown, hsame.oamSessionId⟩
  · exact ⟨_, [], rfl, rfl, rfl⟩

theorem pathSignal_sameCountdown (r : MonitoredRecovery) (signal : MaskSignal) :
    SameCountdown r (pathSignal r signal).1 := by
  cases signal with
  | masked mipName =>
    refine ⟨?_, rfl⟩
    simp only [pathSignal, seqRecPathMasked]
    split
    · rfl
    · split
      · rfl
      · split_ifs <;> rfl
  | unmasked mipName =>
    refine ⟨?_, rfl⟩
    simp only [pathSignal, seqRecPathUnmasked]
    split
    · rfl
    · split
      · rfl
      · split_ifs <;> rfl

/-! ## Runs -/

/-- The ticks since the last packet that was passed, after one more event. -/
def elapsedAfter (n : Nat) : MonitoredOutput → Nat
  | .packet true => 0
  | .tick _ _ => n + 1
  | _ => n

/-- The ticks since the last packet that was passed, or since the start. -/
def elapsedTicks (outs : List MonitoredOutput) : Nat :=
  outs.foldl elapsedAfter 0

/-- The next tick resets the recovery. -/
def Resets (s : Option MonitoredRecovery) : Prop :=
  ∃ alerts, (monitoredStep s .tick).2 = .tick true alerts

/-- The reset time is kept. There is a reset at exactly those ticks with which this time has
elapsed since the last packet that was passed, and a packet between two resets. -/
structure KeepsTime (resetMsec : Nat) (s : Option MonitoredRecovery) : Prop where
  exact : ∀ evs, Resets (final monitoredStep s evs) ↔
    elapsedTicks (outputs monitoredStep s evs) + 1 = resetMsec
  once : ∀ evs evs', Resets (final monitoredStep s evs) →
    Resets (final monitoredStep s (evs ++ .tick :: evs')) →
      .packet true ∈ outputs monitoredStep (final monitoredStep s (evs ++ [.tick])) evs'

/-- The thread of a recovery has started, after some packets have come already. -/
def startedThread (r : MonitoredRecovery) (before : List MonitoredEvent) :
    Option MonitoredRecovery :=
  (final monitoredStep (some r) before).map resetThreadStart

/-- The countdown when some ticks have elapsed. -/
def CountsDown (resetMsec n : Nat) (s : Option MonitoredRecovery) : Prop :=
  ∃ r, s = some r ∧ r.oamSessionId = none ∧
    r.recovery.countdown = ⟨resetMsec, false, (ticksFor resetMsec - n : Nat)⟩

theorem decrementTicks_countdown
    (h : r.countdown = ⟨resetMsec, false, (ticksFor resetMsec - n : Nat)⟩) :
    (decrementTicks r).1 = decide (n + 1 = ticksFor resetMsec) ∧ (decrementTicks r).2.countdown =
        ⟨resetMsec, false, (ticksFor resetMsec - (n + 1) : Nat)⟩ := by
  simp only [SequenceRecovery.countdown, Countdown.mk.injEq] at h
  obtain ⟨hmsec, hind, hticks⟩ := h
  unfold decrementTicks
  dsimp only
  split_ifs with hzero
  · -- over already
    refine ⟨(decide_eq_false (by omega)).symm, ?_⟩
    simp only [SequenceRecovery.countdown, Countdown.mk.injEq]
    exact ⟨hmsec, hind, by omega⟩
  · refine ⟨decide_eq_decide.mpr (by omega), ?_⟩
    simp only [SequenceRecovery.countdown, Countdown.mk.injEq]
    exact ⟨hmsec, hind, by omega⟩

theorem monitoredStep_tick (h : CountsDown resetMsec n s) :
    ∃ alerts, (monitoredStep s .tick).2 = .tick (decide (n + 1 = ticksFor resetMsec)) alerts ∧
      CountsDown resetMsec (n + 1) (monitoredStep s .tick).1 := by
  obtain ⟨r, rfl, hsession, hcount⟩ := h
  obtain ⟨hlast, hnext⟩ := decrementTicks_countdown hcount
  -- a reset does not touch the countdown, and neither does the rest of the tick
  have hrest (r' : MonitoredRecovery) (hsession' : r'.oamSessionId = none)
      (hnext' : r'.recovery.countdown = (decrementTicks r.recovery).2.countdown) :
      ∃ r'' alerts, latentErrorTick (latentResetTick r')
          (decide (n + 1 = ticksFor resetMsec)) =
            .goesOn r'' (decide (n + 1 = ticksFor resetMsec)) alerts ∧
        CountsDown resetMsec (n + 1) (some r'') := by
    obtain ⟨r'', alerts, heq, hsame⟩ := latentErrorTick_goesOn (latentResetTick r')
      (decide (n + 1 = ticksFor resetMsec))
    have hsame := (latentResetTick_sameCountdown r').trans hsame
    refine ⟨r'', alerts, heq, r'', rfl, hsame.oamSessionId.trans hsession', ?_⟩
    rw [hsame.countdown, hnext', hnext]
  have htick : ∃ r'' alerts, resetThreadTick r =
      .goesOn r'' (decide (n + 1 = ticksFor resetMsec)) alerts ∧
        CountsDown resetMsec (n + 1) (some r'') := by
    unfold resetThreadTick
    dsimp only
    rw [hlast]
    by_cases hreset : n + 1 = ticksFor resetMsec
    · simp only [hreset, decide_true, if_true, hsession] at hrest ⊢
      exact hrest _ rfl (seqRecoveryReset_countdown)
    · simp only [hreset, decide_false, Bool.false_eq_true, if_false] at hrest ⊢
      exact hrest _ hsession rfl
  obtain ⟨r'', alerts, heq, hcounts⟩ := htick
  refine ⟨alerts, ?_, ?_⟩
  · simp only [monitoredStep, heq]
  · simp only [monitoredStep, heq]
    exact hcounts

theorem monitoredStep_countsDown (h : CountsDown resetMsec n s) (ev : MonitoredEvent) :
    CountsDown resetMsec (elapsedAfter n (monitoredStep s ev).2) (monitoredStep s ev).1 := by
  cases ev with
  | packet seq =>
    obtain ⟨r, rfl, hsession, hcount⟩ := h
    have hind : r.recovery.individualRecovery = false :=
      congrArg Countdown.individualRecovery hcount
    have hpacket := seqRecovery_countdown seq hind
    refine ⟨_, rfl, hsession, hpacket.trans ?_⟩
    rw [hcount]
    simp only [monitoredStep]
    cases (seqRecovery r.recovery seq).1 with
    | true | false => rfl
  | tick =>
    obtain ⟨alerts, hout, hcounts⟩ := monitoredStep_tick h
    rw [hout]
    exact hcounts
  | signal signal =>
    obtain ⟨r, rfl, hsession, hcount⟩ := h
    have hsame := pathSignal_sameCountdown r signal
    exact ⟨_, rfl, hsame.oamSessionId.trans hsession, hsame.countdown.trans hcount⟩

theorem final_countsDown (n : Nat) (s : Option MonitoredRecovery) (h : CountsDown resetMsec n s)
    (evs : List MonitoredEvent) :
    CountsDown resetMsec ((outputs monitoredStep s evs).foldl elapsedAfter n)
      (final monitoredStep s evs) := by
  -- the ticks before the first event are part of what the induction is about
  induction evs generalizing s n with
  | nil => exact h
  | cons ev evs ih => exact ih _ _ (monitoredStep_countsDown h ev)

theorem resets_iff_of_countsDown (h : CountsDown resetMsec n s) :
    Resets s ↔ n + 1 = ticksFor resetMsec := by
  obtain ⟨alerts, hout, -⟩ := monitoredStep_tick h
  unfold Resets
  rw [hout]
  simp [MonitoredOutput.tick.injEq]

/-- In any run, there is a reset when the ticks that the countdown begins with have
elapsed. -/
theorem resets_iff (h : CountsDown resetMsec 0 s) (evs : List MonitoredEvent) :
    Resets (final monitoredStep s evs) ↔
      elapsedTicks (outputs monitoredStep s evs) + 1 = ticksFor resetMsec :=
  resets_iff_of_countsDown (final_countsDown 0 s h evs)

theorem le_foldl_elapsedAfter (n : Nat) {outs : List MonitoredOutput} (hno : .packet true ∉ outs) :
    n ≤ outs.foldl elapsedAfter n := by
  induction outs generalizing n with
  | nil => exact Nat.le_refl n
  | cons out outs ih =>
    rw [mem_cons, not_or] at hno
    refine Nat.le_trans ?_ (ih (elapsedAfter n out) hno.2)
    cases out with
    | packet passed =>
      cases passed with
      | true => exact absurd rfl hno.1
      | false => exact Nat.le_refl n
    | tick reset alerts => exact Nat.le_succ n
    | signal out | gone => exact Nat.le_refl n

theorem elapsed_replicate_tick (n k : Nat) (s : Option MonitoredRecovery)
    (h : CountsDown resetMsec n s) :
    (outputs monitoredStep s (List.replicate k .tick)).foldl elapsedAfter n = n + k := by
  induction k generalizing s n with
  | zero => rfl
  | succ k ih =>
    obtain ⟨alerts, hout, hcounts⟩ := monitoredStep_tick h
    rw [replicate_succ, outputs_cons, foldl_cons, hout]
    exact (ih (n + 1) _ hcounts).trans (by omega)

theorem keepsTime_iff {resetMsec : Nat} (hpos : 1 ≤ resetMsec) {s : Option MonitoredRecovery}
    (h : CountsDown resetMsec 0 s) : KeepsTime resetMsec s ↔ ticksFor resetMsec = resetMsec := by
  constructor
  · intro hkeeps
    -- after all ticks but one the next one should be the last
    have hexact := hkeeps.exact (List.replicate (resetMsec - 1) .tick)
    have hresets := resets_iff h (List.replicate (resetMsec - 1) .tick)
    have helapsed := elapsed_replicate_tick 0 (resetMsec - 1) s h
    unfold elapsedTicks at hexact hresets
    rw [helapsed] at hexact hresets
    have hlast := hresets.mp (hexact.mpr (by omega))
    omega
  · intro hticks
    refine ⟨fun evs => ?_, fun evs evs' hfirst hsecond => ?_⟩
    · rw [resets_iff h evs, hticks]
    · by_contra hno
      rw [resets_iff h] at hfirst hsecond
      -- from the first reset on the ticks add up
      have hsplit : evs ++ MonitoredEvent.tick :: evs' = (evs ++ [.tick]) ++ evs' := by
        rw [append_assoc, singleton_append]
      obtain ⟨alerts, hout, -⟩ := monitoredStep_tick (final_countsDown 0 s h evs)
      rw [hsplit, elapsedTicks, outputs_append, foldl_append, outputs_append,
        foldl_append, outputs_cons, hout] at hsecond
      have hle := le_foldl_elapsedAfter (elapsedTicks (outputs monitoredStep s evs) + 1) hno
      simp only [outputs_nil, foldl_cons, foldl_nil, elapsedAfter] at hsecond
      unfold elapsedTicks at hle hfirst
      omega

/-! ## Configured recoveries -/

theorem ticksFor_eq_iff (resetMsec : Nat) :
    ticksFor resetMsec = resetMsec ↔ resetMsec ≤ 4294966 := by
  unfold ticksFor frerTicksPerSec
  omega

/-- Packets and signals that come before the thread has started leave the reset time. -/
theorem final_before (r : MonitoredRecovery) {before : List MonitoredEvent}
    (hbefore : .tick ∉ before) (hsession : r.oamSessionId = none)
    (hind : r.recovery.individualRecovery = false) :
    ∃ r', final monitoredStep (some r) before = some r' ∧ r'.oamSessionId = none ∧
      r'.recovery.individualRecovery = false ∧ r'.recovery.resetMsec = r.recovery.resetMsec := by
  induction before generalizing r with
  | nil => exact ⟨r, rfl, hsession, hind, rfl⟩
  | cons ev before ih =>
    rw [mem_cons, not_or] at hbefore
    cases ev with
    | packet seq =>
      have hpacket := seqRecovery_countdown seq hind
      have hmsec : (seqRecovery r.recovery seq).2.resetMsec = r.recovery.resetMsec := by
        refine (congrArg Countdown.resetMsec hpacket).trans ?_
        cases (seqRecovery r.recovery seq).1 <;> rfl
      have hind' : (seqRecovery r.recovery seq).2.individualRecovery = false := by
        refine (congrArg Countdown.individualRecovery hpacket).trans ?_
        cases (seqRecovery r.recovery seq).1 <;> exact hind
      obtain ⟨r', heq, hsession', hind'', hmsec'⟩ :=
        ih { r with recovery := (seqRecovery r.recovery seq).2 } hbefore.2 hsession hind'
      exact ⟨r', heq, hsession', hind'', hmsec'.trans hmsec⟩
    | tick => exact absurd rfl hbefore.1
    | signal signal =>
      have hsame := pathSignal_sameCountdown r signal
      obtain ⟨r', heq, hsession', hind', hmsec'⟩ := ih (pathSignal r signal).1 hbefore.2
        (hsame.oamSessionId.trans hsession)
        ((congrArg Countdown.individualRecovery hsame.countdown).trans hind)
      exact ⟨r', heq, hsession', hind', hmsec'.trans (congrArg Countdown.resetMsec hsame.countdown)⟩

theorem startedThread_countsDown (r : MonitoredRecovery) (before : List MonitoredEvent)
    (hbefore : .tick ∉ before) (hsession : r.oamSessionId = none)
    (hind : r.recovery.individualRecovery = false) :
    CountsDown r.recovery.resetMsec 0 (startedThread r before) := by
  obtain ⟨r', heq, hsession', hind', hmsec⟩ := final_before r hbefore hsession hind
  refine ⟨resetThreadStart r', congrArg (Option.map resetThreadStart) heq, hsession', ?_⟩
  rw [← hmsec, Nat.sub_zero]
  exact congrArg (Countdown.mk _ · _) hind'

/-- The recovery of a line that gives a reset time and nothing else. -/
def timedRecovery (resetMsec : Nat) : MonitoredRecovery :=
  RecParameters.newRecovery ⟨false, false, 2, resetMsec, ⟨2, 0, 0, 0, 0⟩, .rcvyVector⟩ "rec"

end Dnt
