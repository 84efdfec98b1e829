import Dnt.Core.PathMask

/-!
# The Thread of a Sequence Recovery

`reset_thread` of `seq_recov.c`. Counters are taken not to leave 32 bits. A division by
zero ends the process, and so the functions that divide are partial.

## Main definitions

* `MonitoredRecovery`: A recovery with its countdown and its diagnosis.
* `monitoredStep`: A packet, or a millisecond of the thread. It counts down to the reset,
  which every packet that is passed puts off. For a maintenance session the end of the
  countdown is the end of the recovery.
* `latentErrorTest`: Now and then the packets that were passed and discarded are compared,
  to find out whether copies are missing from a path.

## Theorems

* `latentErrorTest_cases`: The cases in which there is a diagnosis.
-/

namespace Dnt

structure RecoveryDiagnosticConf where
  adminLatentErrorPaths : Int
  latentErrorPeriod : Int
  latentResetPeriod : Int
  latentErrorDifference : Int
  outageThreshold : Int
  deriving DecidableEq, Repr

structure MonitoredRecovery extends MaskRecovery where
  diag : RecoveryDiagnosticConf
  passedPacketsLast : Int
  roguePacketsLast : Int
  discardedPacketsLast : Int
  latentErrors : Int
  latentResetCounter : Int
  latentErrorCounter : Int
  /-- The session, for recoveries of maintenance packets. -/
  oamSessionId : Option String
  deriving DecidableEq, Repr

def newMonitoredRecovery (name : String) (algo : SequenceRecoveryAlgorithm)
    (useResetFlag useInitFlag : Bool) (historyLength resetMsec : Nat)
    (diag : RecoveryDiagnosticConf) : MonitoredRecovery :=
  { newMaskRecovery name (newSeqRec algo useResetFlag useInitFlag historyLength resetMsec)
      diag.adminLatentErrorPaths with
    diag := diag
    passedPacketsLast := 0
    roguePacketsLast := 0
    discardedPacketsLast := 0
    latentErrors := 0
    latentResetCounter := 0
    latentErrorCounter := 0
    oamSessionId := none }

inductive RecoveryAlert where
  | morePackets (percent : Int)
  | packetAbsent
  | disfunctioningPaths (paths : Int)
  | disfunctioningPathsAbsent (paths : Int)
  | outOfWindow (packets : Int)
  | packetLoss (consecutive aggregate : Int)
  deriving DecidableEq, Repr

def RecoveryAlert.text (name : String) : RecoveryAlert → String
  | .morePackets percent => s!"{name}: MORE_PACKETS_THAN_EXPECTED with {percent} percent"
  | .packetAbsent => s!"{name}: PACKET_ABSENT"
  | .disfunctioningPaths paths => s!"{name}: DISFUNCTIONING_PATHS: {paths} path(s)"
  | .disfunctioningPathsAbsent paths =>
    s!"{name}: DISFUNCTIONING_PATHS: {paths} path(s) and PACKET_ABSENT"
  | .outOfWindow packets => s!"{name}: OUTOFWINDOW_PACKETS: {packets}"
  | .packetLoss consecutive aggregate =>
    s!"{name}: PACKET_LOSS: {consecutive} consecutive packets and {aggregate} aggregate lost"

/-- The division of C, which rounds towards zero and must not be by zero. -/
def divideInt (a b : Int) : Option Int :=
  if b = 0 then none else some (a.tdiv b)

/-- An `int` as an `unsigned`. -/
def unsigned32 (a : Int) : Int := a % 2 ^ 32

/-- A number as an `int`. -/
def signed32 (a : Int) : Int := Int.bmod a (2 ^ 32)

variable (r : MonitoredRecovery)

/-- What is reported when copies are missing. The two quotients are estimates of how many
paths are left besides the one that packets are passed from; they are the same if more
is missing than whole paths. -/
def pathsAlert (discardedDiff workingCeil workingFloor : Int) : RecoveryAlert :=
  if discardedDiff < r.diag.latentErrorDifference then
    .disfunctioningPaths (r.latentErrorPaths - 1)
  else if workingCeil = workingFloor then
    let paths := signed32 (r.latentErrorPaths - 2 - workingCeil)
    if paths > 0 then .disfunctioningPathsAbsent paths else .packetAbsent
  else .disfunctioningPaths (signed32 (r.latentErrorPaths - 1 - workingCeil))

def updateLast : MonitoredRecovery :=
  { r with
    discardedPacketsLast := r.recovery.discardedPackets
    passedPacketsLast := r.recovery.passedPackets }

def reportPackets : MonitoredRecovery × List RecoveryAlert :=
  let rogue :=
    if r.recovery.roguePackets ≠ r.roguePacketsLast then
      ({ r with roguePacketsLast := r.recovery.roguePackets },
        [.outOfWindow r.recovery.roguePackets])
    else (r, [])
  let loss := r.recovery.loss
  if loss.consecutiveLossMax > r.diag.outageThreshold then
    ({ rogue.1 with recovery := clearConsecutiveLossMax rogue.1.recovery },
      rogue.2 ++ [.packetLoss loss.consecutiveLossMax loss.lostPackets])
  else rogue

def MonitoredRecovery.discardedDiff : Int :=
  r.recovery.discardedPackets - r.discardedPacketsLast

def MonitoredRecovery.passedDiff : Int :=
  r.recovery.passedPackets - r.passedPacketsLast

def MonitoredRecovery.excess : Int :=
  r.discardedDiff - (r.latentErrorPaths - 1) * r.passedDiff

def recoveryDiagnostic : Option (MonitoredRecovery × List RecoveryAlert) :=
  let difference := r.diag.latentErrorDifference
  if r.recovery.regular.takeAny = true then some (r, [])
  else if r.passedDiff = 0 then some (r, [])
  else
    match divideInt (r.discardedDiff + difference - 1) r.passedDiff,
        divideInt (r.discardedDiff - difference) r.passedDiff with
    | some workingCeil, some workingFloor =>
      if r.excess > -difference ∧ r.excess < difference then some (updateLast r, [])
      else if r.excess ≥ difference then
        (divideInt (r.discardedDiff * 100) ((r.latentErrorPaths - 1) * r.passedDiff)).map
          fun morePercent => (updateLast r, [.morePackets morePercent])
      else
        let alert := pathsAlert r r.discardedDiff (unsigned32 workingCeil) (unsigned32 workingFloor)
        let reported := reportPackets r
        some (updateLast reported.1, alert :: reported.2)
    | _, _ => none

def latentErrorTest : Option (MonitoredRecovery × List RecoveryAlert) :=
  let diff := r.curBaseDifference -
    (r.recovery.passedPackets * (r.latentErrorPaths - 1) - r.recovery.discardedPackets)
  if r.latentErrorPaths > 1 ∧ r.diag.latentErrorPeriod > 0 then
    let diff := if diff < 0 then -diff else diff
    recoveryDiagnostic
      { r with
        latentErrors :=
          if diff > r.diag.latentErrorDifference then r.latentErrors + 1 else r.latentErrors }
  else some (r, [])

/-- Everything `recovery_diagnostic` can do: the recovery afterwards, and the reports. -/
inductive DiagnosticCase (r : MonitoredRecovery) :
    MonitoredRecovery → List RecoveryAlert → Prop where
  | nothing (h : r.recovery.regular.takeAny = true ∨ r.passedDiff = 0) : DiagnosticCase r r []
  | expected (htake : r.recovery.regular.takeAny = false) (hpassed : r.passedDiff ≠ 0)
      (hlow : -r.diag.latentErrorDifference < r.excess)
      (hhigh : r.excess < r.diag.latentErrorDifference) : DiagnosticCase r (updateLast r) []
  | more (htake : r.recovery.regular.takeAny = false) (hpassed : r.passedDiff ≠ 0)
      (hmore : r.diag.latentErrorDifference ≤ r.excess) (percent : Int) :
      DiagnosticCase r (updateLast r) [.morePackets percent]
  | missing (htake : r.recovery.regular.takeAny = false) (hpassed : r.passedDiff ≠ 0)
      (hmissing : r.excess ≤ -r.diag.latentErrorDifference)
      (hless : r.excess < r.diag.latentErrorDifference) :
      DiagnosticCase r (updateLast (reportPackets r).1)
        (pathsAlert r r.discardedDiff
          (unsigned32 ((r.discardedDiff + r.diag.latentErrorDifference - 1).tdiv r.passedDiff))
          (unsigned32 ((r.discardedDiff - r.diag.latentErrorDifference).tdiv r.passedDiff)) ::
            (reportPackets r).2)

theorem recoveryDiagnostic_case {r : MonitoredRecovery} (hpaths : 1 < r.latentErrorPaths) :
    ∃ r' alerts, recoveryDiagnostic r = some (r', alerts) ∧ DiagnosticCase r r' alerts := by
  unfold recoveryDiagnostic
  cases htake : r.recovery.regular.takeAny with
  | true => exact ⟨r, [], if_pos rfl, .nothing (Or.inl htake)⟩
  | false =>
    by_cases hpassed : r.passedDiff = 0
    · refine ⟨r, [], ?_, .nothing (Or.inr hpassed)⟩
      simp [if_pos hpassed]
    have hmul : (r.latentErrorPaths - 1) * r.passedDiff ≠ 0 :=
      Int.mul_ne_zero (by omega) hpassed
    simp only [Bool.false_eq_true, if_false, divideInt, hpassed, hmul, Option.map_some]
    split_ifs with hexpected hmore
    · exact ⟨_, _, rfl, .expected htake hpassed hexpected.1 hexpected.2⟩
    · exact ⟨_, _, rfl, .more htake hpassed hmore _⟩
    · exact ⟨_, _, rfl, .missing htake hpassed (by omega) (by omega)⟩

theorem latentErrorTest_cases :
    (¬ (1 < r.latentErrorPaths ∧ 0 < r.diag.latentErrorPeriod) ∧ latentErrorTest r = some (r, [])) ∨
      (1 < r.latentErrorPaths ∧ 0 < r.diag.latentErrorPeriod) ∧
        ∃ errors, latentErrorTest r = recoveryDiagnostic { r with latentErrors := errors } := by
  unfold latentErrorTest
  grind

/-- One tick less. The first component says whether it was the last one; a countdown that is
over stays so. -/
def decrementTicks (r : SequenceRecovery) : Bool × SequenceRecovery :=
  if r.remainingTicks = 0 then (false, r)
  else
    let r := { r with remainingTicks := r.remainingTicks - 1 }
    (decide (r.remainingTicks = 0), r)

inductive TickResult where
  | goesOn (r : MonitoredRecovery) (reset : Bool) (alerts : List RecoveryAlert)
  /-- The recovery of a session is removed, and its thread ends. -/
  | exits (sessionId : String)
  | dividesByZero
  deriving DecidableEq, Repr

/-- The part of a tick that begins to count copies anew. -/
def latentResetTick : MonitoredRecovery :=
  let counter := r.latentResetCounter + (1000 / frerTicksPerSec : Nat)
  if r.diag.latentResetPeriod ≠ 0 ∧ counter ≥ r.diag.latentResetPeriod then
    { r with toMaskRecovery := latentErrorReset r.toMaskRecovery, latentResetCounter := 0 }
  else { r with latentResetCounter := counter }

/-- The part of a tick that tests the paths. -/
def latentErrorTick (reset : Bool) : TickResult :=
  let counter := r.latentErrorCounter + (1000 / frerTicksPerSec : Nat)
  if counter ≥ r.diag.latentErrorPeriod then
    match latentErrorTest { r with latentErrorCounter := counter } with
    | some (r, alerts) => .goesOn { r with latentErrorCounter := 0 } reset alerts
    | none => .dividesByZero
  else .goesOn { r with latentErrorCounter := counter } reset []

/-- The body of the loop of `reset_thread`. -/
def resetThreadTick : TickResult :=
  let ticks := decrementTicks r.recovery
  let r := { r with recovery := ticks.2 }
  if ticks.1 = true then
    match r.oamSessionId with
    | some sessionId => .exits sessionId
    | none =>
      latentErrorTick (latentResetTick { r with recovery := seqRecoveryReset r.recovery }) true
  else latentErrorTick (latentResetTick r) false

def resetThreadStart : MonitoredRecovery :=
  { r with recovery := resetTicks r.recovery }

inductive MonitoredEvent where
  | packet (seq : Nat)
  | tick
  | signal (signal : MaskSignal)
  deriving DecidableEq, Repr

inductive MonitoredOutput where
  | packet (passed : Bool)
  | tick (reset : Bool) (alerts : List RecoveryAlert)
  | signal (out : MaskOutput)
  /-- The recovery does not exist any more. -/
  | gone
  deriving DecidableEq, Repr

/-- A signal for one of the inputs, without what it starts elsewhere. -/
def pathSignal : MaskSignal → MonitoredRecovery × MaskOutput
  | .masked mipName =>
    let signalled := seqRecPathMasked r.toMaskRecovery mipName
    ({ r with toMaskRecovery := signalled.1 }, signalled.2)
  | .unmasked mipName =>
    let signalled := seqRecPathUnmasked r.toMaskRecovery mipName
    ({ r with toMaskRecovery := signalled.1 }, signalled.2)

def monitoredStep :
    Option MonitoredRecovery → MonitoredEvent → Option MonitoredRecovery × MonitoredOutput
  | none, _ => (none, .gone)
  | some r, .packet seq =>
    (some { r with recovery := (seqRecovery r.recovery seq).2 },
      .packet (seqRecovery r.recovery seq).1)
  | some r, .tick =>
    match resetThreadTick r with
    | .goesOn r reset alerts => (some r, .tick reset alerts)
    | .exits _ => (none, .gone)
    | .dividesByZero => (none, .gone)
  | some r, .signal signal => (some (pathSignal r signal).1, .signal (pathSignal r signal).2)

end Dnt
