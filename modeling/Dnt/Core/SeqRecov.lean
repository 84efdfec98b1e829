import Dnt.Library.Mealy
import Dnt.Library.Window

/-!
# Sequence Recovery

The elimination side of frame replication, `seq_recov.c`. Match remembers only the
last number. Vector keeps a bit history of the most recent numbers, cell `0` for the
newest one. SeamlessVector runs two vectors side by side, one for packets carrying
the INIT flag, and restarts either of them when a RESET flag or the end of the
initial space asks for it.

`recover` picks one of two triples of variables by pointer, and a `SeqSpace` is such
a triple. Each call is one step. The counters are `int`s of 32 bits.

## Main definitions

* `SequenceRecovery`: The record of one recovery object.
* `LossCounters.leave`: What a cell counts when it leaves the history.
* `recover`: The vector algorithm on one of the two number spaces.
* `seqRecovery`, `seqRecoveryReset`: One packet, and one reset, by algorithm.
* `recoveryStep`, `lossStep`: The same as steps of a machine.
* `RecoverCase`: Everything `recover` can do, by branch.

## Theorems

* `recover_case`: `recover` does one of these.
* `seamlessRestarts_init`, `seamlessRestarts_regular`: Which `take_any` flags a
  packet's own flags set.
-/

namespace Dnt

/-- `FRER_RCVY_SEQ_SPACE`, the number of sequence numbers. -/
def frerRcvySeqSpace : Int := 65536

def frerTicksPerSec : Nat := 1000

def frerResetFlagBit : Nat := 26

def frerInitFlagBit : Nat := 25

inductive SequenceRecoveryAlgorithm where
  | rcvyMatch
  | rcvyVector
  | rcvySeamlessVector
  deriving DecidableEq, Repr

/-- The variables `recover` reaches through its three pointers. -/
structure SeqSpace where
  recvSeq : Nat
  takeAny : Bool
  history : List Bool
  deriving DecidableEq, Repr

/-- `counter++` on an `int`, which has 32 bits. Past the largest number it goes on
with the smallest one, as on the machines the program is for. -/
def intSucc (n : Int) : Int :=
  Int.bmod (n + 1) (2 ^ 32)

theorem intSucc_eq_add {n : Int} (hlow : -2147483648 ≤ n) (hhigh : n + 1 < 2147483648) :
    intSucc n = n + 1 :=
  Int.bmod_eq_of_le (by omega) (by omega)

/-- Counting on from what the `int` shows is counting on from the number itself. -/
theorem intSucc_bmod (n : Int) : intSucc (Int.bmod n (2 ^ 32)) = Int.bmod (n + 1) (2 ^ 32) :=
  Int.bmod_add_bmod

/-- What `shift_seq_history` counts when a cell leaves the history. -/
structure LossCounters where
  lostPackets : Int
  consecutiveLoss : Int
  consecutiveLossMax : Int
  skipLossAfterResetGuard : Int
  deriving DecidableEq, Repr

structure SequenceRecovery where
  algorithm : SequenceRecoveryAlgorithm
  useResetFlag : Bool
  useInitFlag : Bool
  individualRecovery : Bool
  historyLength : Int
  resetMsec : Nat
  regular : SeqSpace
  initial : SeqSpace
  loss : LossCounters
  outOfOrderPackets : Int
  passedPackets : Int
  roguePackets : Int
  discardedPackets : Int
  remainingTicks : Int
  seqRecoveryResets : Int
  deriving DecidableEq, Repr

namespace SequenceRecovery

/-- The number space `recover` works on: the initial one for packets with the
INIT flag, the regular one otherwise. -/
def space (r : SequenceRecovery) (init : Bool) : SeqSpace :=
  if init then r.initial else r.regular

def setSpace (r : SequenceRecovery) (init : Bool) (sp : SeqSpace) : SequenceRecovery :=
  if init then { r with initial := sp } else { r with regular := sp }

end SequenceRecovery

open SequenceRecovery

/-- The ticks are an unsigned 32-bit product, rounded up to whole ticks. -/
def resetTicks (r : SequenceRecovery) : SequenceRecovery :=
  { r with remainingTicks := (((r.resetMsec * frerTicksPerSec + 999) % 2 ^ 32) / 1000 : Nat) }

/-- What is counted when a cell leaves the history. An empty one is a lost packet,
unless the guard set by a latent error reset is still running. `succ` is the
successor the counters are raised by. -/
def LossCounters.leave (succ : Int → Int) (l : LossCounters) (oldest : Bool) : LossCounters :=
  if oldest = false then
    -- a latent error reset empties cells, and as many are not counted as lost
    if l.skipLossAfterResetGuard = 0 then
      let consecutive := succ l.consecutiveLoss
      { l with
        lostPackets := succ l.lostPackets
        consecutiveLoss := consecutive
        consecutiveLossMax :=
          if consecutive > l.consecutiveLossMax then consecutive else l.consecutiveLossMax }
    else { l with skipLossAfterResetGuard := l.skipLossAfterResetGuard - 1 }
  else { l with consecutiveLoss := 0 }

/-- The oldest cell leaves the history and `newZero` becomes cell `0`. -/
def shiftSeqHistory (historyLength : Int) (l : LossCounters) (history : List Bool)
    (newZero : Bool) : LossCounters × List Bool :=
  (l.leave intSucc (history.getD (historyLength - 1).toNat false), newZero :: history.dropLast)

/-- The loop of `recover` that shifts an empty cell in, `n` times. -/
def shiftZeros (historyLength : Int) : Nat → LossCounters → List Bool → LossCounters × List Bool
  | 0, l, history => (l, history)
  | n + 1, l, history =>
    let shifted := shiftSeqHistory historyLength l history false
    shiftZeros historyLength n shifted.1 shifted.2

/-- `calc_delta`: the masked difference, read as a signed 16-bit number. -/
def calcDelta (seq1 seq2 : Int) : Int :=
  let delta := (seq1 - seq2) % frerRcvySeqSpace
  if delta / (frerRcvySeqSpace / 2) % 2 ≠ 0 then delta - frerRcvySeqSpace else delta

/-- The vector algorithm on the number space selected by `init`. The first
component says whether the packet is passed. -/
def recover (r : SequenceRecovery) (packetSeq : Nat) (init : Bool) : Bool × SequenceRecovery :=
  let sp := r.space init
  let delta := calcDelta packetSeq sp.recvSeq
  if sp.takeAny = true then
    -- only the first cell is written, the others keep what they had
    let sp := { recvSeq := packetSeq, takeAny := false, history := sp.history.set 0 true }
    (true, resetTicks { r.setSpace init sp with passedPackets := intSucc r.passedPackets })
  else if delta > r.historyLength ∨ delta ≤ -r.historyLength then
    -- a discarded packet restarts the timer in individual recovery only
    let r := { r with
      roguePackets := intSucc r.roguePackets
      discardedPackets := intSucc r.discardedPackets }
    (false, if r.individualRecovery then resetTicks r else r)
  else if delta ≤ 0 then
    if sp.history.getD (-delta).toNat false = false then
      let sp := { sp with history := sp.history.set (-delta).toNat true }
      (true, resetTicks { r.setSpace init sp with
        outOfOrderPackets := intSucc r.outOfOrderPackets
        passedPackets := intSucc r.passedPackets })
    else
      let r := { r with discardedPackets := intSucc r.discardedPackets }
      (false, if r.individualRecovery then resetTicks r else r)
  else
    let outOfOrder := if delta ≠ 1 then intSucc r.outOfOrderPackets else r.outOfOrderPackets
    -- `while((delta -= 1) != 0)` shifts `delta - 1` empty cells in
    let zeros := shiftZeros r.historyLength (delta - 1).toNat r.loss sp.history
    let shifted := shiftSeqHistory r.historyLength zeros.1 zeros.2 true
    let sp := { sp with recvSeq := packetSeq, history := shifted.2 }
    (true, resetTicks { r.setSpace init sp with
      loss := shifted.1
      outOfOrderPackets := outOfOrder
      passedPackets := intSucc r.passedPackets })

def matchSeqRecovery (r : SequenceRecovery) (seq : Nat) : Bool × SequenceRecovery :=
  let seq := seq % 65536
  if r.regular.takeAny = true then
    (true, resetTicks { r with
      regular := { r.regular with takeAny := false, recvSeq := seq }
      passedPackets := intSucc r.passedPackets })
  else
    let delta := ((seq : Int) - r.regular.recvSeq) % frerRcvySeqSpace
    -- a repetition of the last packet, nothing older is remembered
    if delta = 0 then
      let r := { r with discardedPackets := intSucc r.discardedPackets }
      (false, if r.individualRecovery then resetTicks r else r)
    else
      (true, resetTicks { r with
        regular := { r.regular with recvSeq := seq }
        outOfOrderPackets := if delta ≠ 1 then intSucc r.outOfOrderPackets else r.outOfOrderPackets
        passedPackets := intSucc r.passedPackets })

def vectorSeqRecovery (r : SequenceRecovery) (seq : Nat) : Bool × SequenceRecovery :=
  recover r (seq % 65536) false

/-- A number this far from the newest one is not explained by reordering, so
a RESET flag on it restarts the space. -/
def outsideResetIgnoreRange (r : SequenceRecovery) (delta : Int) : Bool :=
  delta > r.historyLength || delta ≤ -r.historyLength * 2

/-- Whether `seamless_seq_recovery` handles the packet in the initial space. -/
def isInitPacket (r : SequenceRecovery) (seq : Nat) : Bool :=
  r.useResetFlag && r.useInitFlag && seq.testBit frerInitFlagBit

def setTakeAny (r : SequenceRecovery) (init : Bool) : SequenceRecovery :=
  r.setSpace init { r.space init with takeAny := true }

/-- The flag handling in front of `recover`: a RESET flag restarts the packet's
own space, and an initial number near the end of its range restarts the
regular space. -/
def seamlessRestarts (r : SequenceRecovery) (seq : Nat) : SequenceRecovery :=
  let flags := seq
  let seq := seq % 65536
  if r.useResetFlag = true then
    if isInitPacket r flags = true then
      let delta := calcDelta seq r.initial.recvSeq
      let r := if flags.testBit frerResetFlagBit = true ∧ outsideResetIgnoreRange r delta = true
        then setTakeAny r true else r
      -- between these the regular numbers are about to start
      let high := frerRcvySeqSpace - 3 * r.historyLength
      let low := frerRcvySeqSpace - r.historyLength
      if (seq : Int) ≥ high ∧ (seq : Int) < low then setTakeAny r false else r
    else if flags.testBit frerResetFlagBit = true ∧
        outsideResetIgnoreRange r (calcDelta seq r.regular.recvSeq) = true then
      setTakeAny r false
    else r
  else r

def seamlessSeqRecovery (r : SequenceRecovery) (seq : Nat) : Bool × SequenceRecovery :=
  recover (seamlessRestarts r seq) (seq % 65536) (isInitPacket r seq)

/-- Empty the history and put the newest number back to the last one. -/
def vectorSeqRecoveryReset (r : SequenceRecovery) : SequenceRecovery :=
  { r with regular := { r.regular with
      recvSeq := (frerRcvySeqSpace - 1).toNat
      history := List.replicate r.historyLength.toNat false } }

def seamlessSeqRecoveryReset (r : SequenceRecovery) : SequenceRecovery :=
  let r := vectorSeqRecoveryReset r
  { r with initial :=
      { recvSeq := (frerRcvySeqSpace - 1).toNat
        takeAny := true
        history := List.replicate r.historyLength.toNat false } }

/-- Process one packet: `true` stands for `ACR_CONTINUE`, `false` for
`ACR_DONE`. `seq` is the 32-bit sequence word in host byte order. -/
def seqRecovery (r : SequenceRecovery) (seq : Nat) : Bool × SequenceRecovery :=
  match r.algorithm with
  | .rcvyVector => vectorSeqRecovery r seq
  | .rcvySeamlessVector => seamlessSeqRecovery r seq
  | .rcvyMatch => matchSeqRecovery r seq

/-- The reset performed when the ticks have run out. -/
def seqRecoveryReset (r : SequenceRecovery) : SequenceRecovery :=
  let r := { r with
    seqRecoveryResets := intSucc r.seqRecoveryResets
    regular := { r.regular with takeAny := true } }
  match r.algorithm with
  | .rcvyMatch => r
  | .rcvyVector => vectorSeqRecoveryReset r
  | .rcvySeamlessVector => seamlessSeqRecoveryReset r

/-- A fresh recovery object. The history length arrives unsigned and is stored
in an `int`; everything not listed in the source is zeroed memory. -/
def newSeqRec (algo : SequenceRecoveryAlgorithm) (useResetFlag useInitFlag : Bool)
    (historyLength resetMsec : Nat) : SequenceRecovery :=
  { algorithm := algo
    useResetFlag := useResetFlag
    useInitFlag := useInitFlag
    individualRecovery := false
    historyLength := Int.bmod historyLength (2 ^ 32)
    resetMsec := resetMsec
    regular := ⟨0, true, List.replicate historyLength false⟩
    initial := ⟨0, true, List.replicate historyLength false⟩
    loss := ⟨0, 0, 0, 0⟩
    outOfOrderPackets := 0
    passedPackets := 0
    roguePackets := 0
    discardedPackets := 0
    remainingTicks := 0
    seqRecoveryResets := 0 }

/-- What can happen to a recovery object: a packet is processed, or the timer
thread resets it. -/
inductive RecoveryEvent where
  | packet (seq : Nat)
  | reset
  deriving DecidableEq, Repr

/-- One event. The output is the decision on a packet; a reset has none. -/
def recoveryStep (r : SequenceRecovery) : RecoveryEvent → SequenceRecovery × Option Bool
  | .packet seq => ((seqRecovery r seq).2, some (seqRecovery r seq).1)
  | .reset => (seqRecoveryReset r, none)

/-- What `recovery_diagnostic` does when it has reported a loss: the longest one
is forgotten, and the one that may be going on is not. -/
def clearConsecutiveLossMax (r : SequenceRecovery) : SequenceRecovery :=
  { r with loss := { r.loss with consecutiveLossMax := 0 } }

/-- What can happen to the loss counters. A latent error reset, which holds them
back for a while, is not among it. -/
inductive LossEvent where
  | recovery (ev : RecoveryEvent)
  | cleared
  deriving DecidableEq, Repr

def lossStep (r : SequenceRecovery) : LossEvent → SequenceRecovery × Option Bool
  | .recovery ev => recoveryStep r ev
  | .cleared => (clearConsecutiveLossMax r, none)

variable {init : Bool} {seq : Nat} {r : SequenceRecovery}

theorem newSeqRec_historyLength (algo : SequenceRecoveryAlgorithm) (useResetFlag useInitFlag : Bool)
    {historyLength : Nat} (resetMsec : Nat) (h : historyLength < 2147483648) :
    (newSeqRec algo useResetFlag useInitFlag historyLength resetMsec).historyLength =
      historyLength := by
  simp only [newSeqRec, Nat.reducePow]
  rw [Int.bmod_eq_of_le] <;> omega

theorem calcDelta_eq {seq1 seq2 d : Int} (hmod : (seq1 - seq2 - d) % 65536 = 0) (hlow : -32768 ≤ d)
    (hhigh : d < 32768) : calcDelta seq1 seq2 = d := by
  simp only [calcDelta, frerRcvySeqSpace]
  split_ifs <;> omega

theorem shiftSeqHistory_snd (historyLength : Int) (l : LossCounters) (history : List Bool)
    (newZero : Bool) :
    (shiftSeqHistory historyLength l history newZero).2 = Window.slide history newZero := rfl

theorem shiftZeros_snd (historyLength : Int) (n : Nat) (l : LossCounters) (history : List Bool) :
    (shiftZeros historyLength n l history).2 = Window.slideZeros n history := by
  induction n generalizing l history with
  | zero => rfl
  | succ n ih => rw [shiftZeros, ih, shiftSeqHistory_snd, Window.slideZeros]

theorem shiftAhead_snd (historyLength : Int) {delta : Int} (l : LossCounters)
    (history : List Bool) :
    (shiftSeqHistory historyLength (shiftZeros historyLength (delta - 1).toNat l history).1
      (shiftZeros historyLength (delta - 1).toNat l history).2 true).2 =
      Window.advance history delta.toNat := by
  rw [shiftSeqHistory_snd, shiftZeros_snd, Window.advance,
    show (delta - 1).toNat = delta.toNat - 1 by omega]

structure RecoveryCounts where
  passed : Int
  discarded : Int
  rogue : Int
  outOfOrder : Int
  deriving DecidableEq, Repr

namespace SequenceRecovery

def counts (r : SequenceRecovery) : RecoveryCounts :=
  ⟨r.passedPackets, r.discardedPackets, r.roguePackets, r.outOfOrderPackets⟩

/-- The two records were configured alike. No packet and no reset changes the
configuration. -/
structure SameConf (r r' : SequenceRecovery) : Prop where
  algorithm : r'.algorithm = r.algorithm
  useResetFlag : r'.useResetFlag = r.useResetFlag
  useInitFlag : r'.useInitFlag = r.useInitFlag
  historyLength : r'.historyLength = r.historyLength

theorem SameConf.trans {r' r'' : SequenceRecovery} (h : r.SameConf r') (h' : r'.SameConf r'') :
    r.SameConf r'' :=
  ⟨h'.algorithm.trans h.algorithm, h'.useResetFlag.trans h.useResetFlag,
    h'.useInitFlag.trans h.useInitFlag, h'.historyLength.trans h.historyLength⟩

end SequenceRecovery

/-- Everything `recover` can do, by branch: whether the packet is passed, the
number space afterwards, and the counters afterwards. -/
inductive RecoverCase (r : SequenceRecovery) (seq : Nat) (init : Bool) :
    Bool → SeqSpace → RecoveryCounts → Prop where
  | restart (htake : (r.space init).takeAny = true) :
      RecoverCase r seq init true ⟨seq, false, (r.space init).history.set 0 true⟩
        { r.counts with passed := intSucc r.passedPackets }
  | rogue (htake : (r.space init).takeAny = false)
      (hout : r.historyLength < calcDelta seq (r.space init).recvSeq ∨
        calcDelta seq (r.space init).recvSeq ≤ -r.historyLength) :
      RecoverCase r seq init false (r.space init)
        { r.counts with
          discarded := intSucc r.discardedPackets
          rogue := intSucc r.roguePackets }
  | late (htake : (r.space init).takeAny = false)
      (hlow : -r.historyLength < calcDelta seq (r.space init).recvSeq)
      (hhigh : calcDelta seq (r.space init).recvSeq ≤ 0)
      (hnew : (r.space init).history.getD
        (-calcDelta seq (r.space init).recvSeq).toNat false = false) :
      RecoverCase r seq init true
        { r.space init with history :=
            (r.space init).history.set (-calcDelta seq (r.space init).recvSeq).toNat true }
        { r.counts with
          passed := intSucc r.passedPackets
          outOfOrder := intSucc r.outOfOrderPackets }
  | seen (htake : (r.space init).takeAny = false)
      (hlow : -r.historyLength < calcDelta seq (r.space init).recvSeq)
      (hhigh : calcDelta seq (r.space init).recvSeq ≤ 0)
      (hold : (r.space init).history.getD
        (-calcDelta seq (r.space init).recvSeq).toNat false = true) :
      RecoverCase r seq init false (r.space init)
        { r.counts with discarded := intSucc r.discardedPackets }
  | ahead (htake : (r.space init).takeAny = false)
      (hlow : 0 < calcDelta seq (r.space init).recvSeq)
      (hhigh : calcDelta seq (r.space init).recvSeq ≤ r.historyLength) :
      RecoverCase r seq init true
        { r.space init with
          recvSeq := seq
          history := Window.advance (r.space init).history
            (calcDelta seq (r.space init).recvSeq).toNat }
        { r.counts with
          passed := intSucc r.passedPackets
          outOfOrder := if calcDelta seq (r.space init).recvSeq ≠ 1
            then intSucc r.outOfOrderPackets else r.outOfOrderPackets }

theorem recover_case (r : SequenceRecovery) (seq : Nat) (init : Bool) :
    RecoverCase r seq init (recover r seq init).1 ((recover r seq init).2.space init)
      (recover r seq init).2.counts := by
  by_cases htake : (r.space init).takeAny = true
  · have hcase : RecoverCase r seq init true _ _ := RecoverCase.restart htake
    rw [recover, if_pos htake]
    cases init <;> exact hcase
  have htake' : (r.space init).takeAny = false := Bool.eq_false_iff.mpr htake
  by_cases hout : calcDelta seq (r.space init).recvSeq > r.historyLength ∨
      calcDelta seq (r.space init).recvSeq ≤ -r.historyLength
  · have hcase := RecoverCase.rogue htake' hout
    rw [recover, if_neg htake, if_pos hout]
    dsimp only
    split <;> cases init <;> exact hcase
  by_cases hneg : calcDelta seq (r.space init).recvSeq ≤ 0
  · by_cases hbit : (r.space init).history.getD
        (-calcDelta seq (r.space init).recvSeq).toNat false = false
    · have hcase := RecoverCase.late htake' (by omega) hneg hbit
      rw [recover, if_neg htake, if_neg hout, if_pos hneg, if_pos hbit]
      cases init <;> exact hcase
    · have hcase := RecoverCase.seen htake' (by omega) hneg (Bool.eq_true_of_not_eq_false hbit)
      rw [recover, if_neg htake, if_neg hout, if_pos hneg, if_neg hbit]
      dsimp only
      split <;> cases init <;> exact hcase
  · have hcase : RecoverCase r seq init true _ _ :=
      RecoverCase.ahead htake' (by omega) (by omega)
    -- the case has the window raised at once, the code shifts cell by cell
    rw [← shiftAhead_snd r.historyLength r.loss] at hcase
    rw [recover, if_neg htake, if_neg hout, if_neg hneg]
    cases init <;> exact hcase

theorem recover_frame (r : SequenceRecovery) (seq : Nat) (init : Bool) :
    r.SameConf (recover r seq init).2 ∧
      (recover r seq init).2.space (!init) = r.space (!init) := by
  unfold recover
  cases init <;> dsimp only <;> split_ifs <;> exact ⟨⟨rfl, rfl, rfl, rfl⟩, rfl⟩

theorem recover_loss_ahead (htake : (r.space init).takeAny = false)
    (hlow : 0 < calcDelta seq (r.space init).recvSeq)
    (hhigh : calcDelta seq (r.space init).recvSeq ≤ r.historyLength) :
    (recover r seq init).2.loss =
      (shiftSeqHistory r.historyLength
        (shiftZeros r.historyLength (calcDelta seq (r.space init).recvSeq - 1).toNat r.loss
          (r.space init).history).1
        (shiftZeros r.historyLength (calcDelta seq (r.space init).recvSeq - 1).toNat r.loss
          (r.space init).history).2 true).1 := by
  rw [recover, if_neg (Bool.eq_false_iff.mp htake), if_neg (by omega), if_neg (by omega)]
  rfl

theorem recover_loss_of_not_ahead
    (h : (r.space init).takeAny = true ∨ calcDelta seq (r.space init).recvSeq ≤ 0 ∨
      r.historyLength < calcDelta seq (r.space init).recvSeq) :
    (recover r seq init).2.loss = r.loss := by
  by_cases htake : (r.space init).takeAny = true
  · rw [recover, if_pos htake]
    cases init <;> rfl
  by_cases hout : calcDelta seq (r.space init).recvSeq > r.historyLength ∨
      calcDelta seq (r.space init).recvSeq ≤ -r.historyLength
  · rw [recover, if_neg htake, if_pos hout]
    dsimp only
    split <;> rfl
  have hneg : calcDelta seq (r.space init).recvSeq ≤ 0 := by grind
  by_cases hbit : (r.space init).history.getD
      (-calcDelta seq (r.space init).recvSeq).toNat false = false
  · rw [recover, if_neg htake, if_neg hout, if_pos hneg, if_pos hbit]
    cases init <;> rfl
  · rw [recover, if_neg htake, if_neg hout, if_pos hneg, if_neg hbit]
    dsimp only
    split <;> rfl

theorem seamlessRestarts_sameConf (r : SequenceRecovery) (seq : Nat) :
    r.SameConf (seamlessRestarts r seq) := by
  unfold seamlessRestarts
  dsimp only
  split_ifs <;> exact ⟨rfl, rfl, rfl, rfl⟩

/-- A packet of the initial space can restart both spaces: its own with a RESET
flag, the regular one by coming close to the end of the numbers. -/
theorem seamlessRestarts_init (hinit : isInitPacket r seq = true) :
    (seamlessRestarts r seq).initial =
        { r.initial with takeAny := r.initial.takeAny || (seq.testBit frerResetFlagBit &&
            outsideResetIgnoreRange r (calcDelta (seq % 65536 : Nat) r.initial.recvSeq)) } ∧
      (seamlessRestarts r seq).regular =
        { r.regular with
          takeAny := r.regular.takeAny ||
            decide (((seq % 65536 : Nat) : Int) ≥ frerRcvySeqSpace - 3 * r.historyLength ∧
              ((seq % 65536 : Nat) : Int) < frerRcvySeqSpace - r.historyLength) } := by
  have huse : r.useResetFlag = true := by
    simp only [isInitPacket, Bool.and_eq_true] at hinit
    exact hinit.1.1
  unfold seamlessRestarts
  dsimp only
  rw [if_pos huse, if_pos hinit]
  -- the two restarts are independent, and each is a disjunction with the flag
  generalize seq.testBit frerResetFlagBit = flag
  generalize outsideResetIgnoreRange r (calcDelta (seq % 65536 : Nat) r.initial.recvSeq) = far
  by_cases hrange : ((seq % 65536 : Nat) : Int) ≥ frerRcvySeqSpace - 3 * r.historyLength ∧
      ((seq % 65536 : Nat) : Int) < frerRcvySeqSpace - r.historyLength
  · cases flag <;> cases far <;>
      simp only [setTakeAny, setSpace, space, Bool.false_eq_true, and_self, and_false, false_and,
        if_true, if_false, if_pos hrange, decide_eq_true hrange, Bool.or_true, Bool.or_false,
        Bool.and_self, Bool.and_false, Bool.false_and]
  · cases flag <;> cases far <;>
      simp only [setTakeAny, setSpace, space, Bool.false_eq_true, and_self, and_false, false_and,
        if_true, if_false, if_neg hrange, decide_eq_false hrange, Bool.or_true, Bool.or_false,
        Bool.and_self, Bool.and_false, Bool.false_and]

theorem seamlessRestarts_regular (hinit : isInitPacket r seq = false) :
    (seamlessRestarts r seq).initial = r.initial ∧
      (seamlessRestarts r seq).regular =
        { r.regular with takeAny := r.regular.takeAny || (r.useResetFlag &&
            (seq.testBit frerResetFlagBit &&
              outsideResetIgnoreRange r (calcDelta (seq % 65536 : Nat) r.regular.recvSeq))) } := by
  unfold seamlessRestarts
  dsimp only
  simp only [hinit, Bool.false_eq_true, if_false]
  generalize seq.testBit frerResetFlagBit = flag
  generalize outsideResetIgnoreRange r (calcDelta (seq % 65536 : Nat) r.regular.recvSeq) = far
  generalize r.useResetFlag = use
  cases use <;> cases flag <;> cases far <;> simp [setTakeAny, setSpace, space]

section Branches

variable (r : SequenceRecovery) (seq : Nat) (init : Bool)

theorem recover_restart (htake : (r.space init).takeAny = true) :
    (recover r seq init).1 = true ∧
      (recover r seq init).2.space init = ⟨seq, false, (r.space init).history.set 0 true⟩ := by
  have hcase := recover_case r seq init
  -- the indices of the case have to be variables for the split
  generalize (recover r seq init).1 = acc, (recover r seq init).2.space init = sp,
    (recover r seq init).2.counts = c at hcase
  cases hcase with
  | restart _ => exact ⟨rfl, rfl⟩
  | rogue h | late h | seen h | ahead h => simp [htake] at h

theorem recover_ahead (htake : (r.space init).takeAny = false)
    (hlow : 0 < calcDelta seq (r.space init).recvSeq)
    (hhigh : calcDelta seq (r.space init).recvSeq ≤ r.historyLength) :
    (recover r seq init).1 = true ∧
      (recover r seq init).2.space init =
        ⟨seq, false, Window.advance (r.space init).history
          (calcDelta seq (r.space init).recvSeq).toNat⟩ := by
  have hcase := recover_case r seq init
  generalize (recover r seq init).1 = acc, (recover r seq init).2.space init = sp,
    (recover r seq init).2.counts = c at hcase
  cases hcase with
  | restart h => simp [htake] at h
  | rogue _ hout | late _ _ h | seen _ _ h => omega
  | ahead _ _ _ => exact ⟨rfl, by simp only [htake]⟩

/-- A packet is dropped without a trace in the number space when its number is
out of range or its cell is marked. -/
theorem recover_drop (htake : (r.space init).takeAny = false)
    (hdrop : r.historyLength < calcDelta seq (r.space init).recvSeq ∨
      calcDelta seq (r.space init).recvSeq ≤ -r.historyLength ∨
      (calcDelta seq (r.space init).recvSeq ≤ 0 ∧ (r.space init).history.getD
        (-calcDelta seq (r.space init).recvSeq).toNat false = true)) :
    (recover r seq init).1 = false ∧ (recover r seq init).2.space init = r.space init := by
  have hcase := recover_case r seq init
  generalize (recover r seq init).1 = acc, (recover r seq init).2.space init = sp,
    (recover r seq init).2.counts = c at hcase
  cases hcase with
  | restart h => simp [htake] at h
  | rogue _ _ | seen _ _ _ _ => exact ⟨rfl, rfl⟩
  | late _ hlow hhigh hnew =>
    -- in the window and not marked, which is what the hypothesis excludes
    rcases hdrop with h | h | ⟨_, h⟩
    · omega
    · omega
    · rw [hnew] at h
      exact absurd h Bool.false_ne_true
  | ahead _ hlow hhigh => omega

end Branches

end Dnt
