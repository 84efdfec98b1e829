import Dnt.Core.SeqRecov
import Dnt.Library.Cells

/-!
# The History in Memory

The vector algorithms of `seq_recov.c` once more, now with their histories as arrays
of `history_length` cells. The size of the arrays is an `unsigned`, while the accesses
are computed from an `int`. The other model treats a history as a list, which is sound
as long as there are no accesses outside.

## Main definitions

* `recoverCells`, `seqRecoveryResetCells`: A packet, and a reset.
* `cellRun`: A run. An access by an index outside of the array ends it with this index.
-/

namespace Dnt

/-- The loop goes down to one. With a length of zero it would not end, but then the oldest
cell is outside already. -/
def shiftSeqHistoryCells (historyLength : Int) (l : LossCounters) (history : List Bool)
    (newZero : Bool) : Except Int (LossCounters × List Bool) := do
  let oldest ← Cells.read history (historyLength - 1)
  let history ← Cells.shiftUp (historyLength - 1).toNat history
  let history ← Cells.write history 0 newZero
  return (l.leave intSucc oldest, history)

def shiftZerosCells (historyLength : Int) :
    Nat → LossCounters → List Bool → Except Int (LossCounters × List Bool)
  | 0, l, history => .ok (l, history)
  | n + 1, l, history => do
    let shifted ← shiftSeqHistoryCells historyLength l history false
    shiftZerosCells historyLength n shifted.1 shifted.2

variable (r : SequenceRecovery)

def recoverCells (packetSeq : Nat) (init : Bool) : Except Int (Bool × SequenceRecovery) :=
  let sp := r.space init
  let delta := calcDelta packetSeq sp.recvSeq
  if sp.takeAny = true then do
    let history ← Cells.write sp.history 0 true
    let sp := { recvSeq := packetSeq, takeAny := false, history := history }
    return (true, resetTicks { r.setSpace init sp with passedPackets := intSucc r.passedPackets })
  else if delta > r.historyLength ∨ delta ≤ -r.historyLength then
    let r := { r with
      roguePackets := intSucc r.roguePackets
      discardedPackets := intSucc r.discardedPackets }
    .ok (false, if r.individualRecovery then resetTicks r else r)
  else if delta ≤ 0 then do
    let cell ← Cells.read sp.history (-delta)
    if cell = false then
      let history ← Cells.write sp.history (-delta) true
      let sp := { sp with history := history }
      return (true, resetTicks { r.setSpace init sp with
        outOfOrderPackets := intSucc r.outOfOrderPackets
        passedPackets := intSucc r.passedPackets })
    else
      let r := { r with discardedPackets := intSucc r.discardedPackets }
      return (false, if r.individualRecovery then resetTicks r else r)
  else do
    let outOfOrder := if delta ≠ 1 then intSucc r.outOfOrderPackets else r.outOfOrderPackets
    let zeros ← shiftZerosCells r.historyLength (delta - 1).toNat r.loss sp.history
    let shifted ← shiftSeqHistoryCells r.historyLength zeros.1 zeros.2 true
    let sp := { sp with recvSeq := packetSeq, history := shifted.2 }
    return (true, resetTicks { r.setSpace init sp with
      loss := shifted.1
      outOfOrderPackets := outOfOrder
      passedPackets := intSucc r.passedPackets })

/-- One packet. The match algorithm has no use for the history. -/
def seqRecoveryCells (seq : Nat) : Except Int (Bool × SequenceRecovery) :=
  match r.algorithm with
  | .rcvyVector => recoverCells r (seq % 65536) false
  | .rcvySeamlessVector =>
    recoverCells (seamlessRestarts r seq) (seq % 65536) (isInitPacket r seq)
  | .rcvyMatch => .ok (matchSeqRecovery r seq)

/-- Empty a history by `memset`. -/
def clearCells (historyLength : Int) (history : List Bool) : Except Int (List Bool) :=
  Cells.fill history (historyLength % 2 ^ 64).toNat false

def vectorSeqRecoveryResetCells : Except Int SequenceRecovery := do
  let history ← clearCells r.historyLength r.regular.history
  return { r with regular := { r.regular with
    recvSeq := (frerRcvySeqSpace - 1).toNat
    history := history } }

def seamlessSeqRecoveryResetCells : Except Int SequenceRecovery := do
  let r ← vectorSeqRecoveryResetCells r
  let history ← clearCells r.historyLength r.initial.history
  return { r with initial :=
    { recvSeq := (frerRcvySeqSpace - 1).toNat, takeAny := true, history := history } }

def seqRecoveryResetCells : Except Int SequenceRecovery :=
  let r := { r with
    seqRecoveryResets := intSucc r.seqRecoveryResets
    regular := { r.regular with takeAny := true } }
  match r.algorithm with
  | .rcvyMatch => .ok r
  | .rcvyVector => vectorSeqRecoveryResetCells r
  | .rcvySeamlessVector => seamlessSeqRecoveryResetCells r

def cellStep : RecoveryEvent → Except Int (SequenceRecovery × Option Bool)
  | .packet seq => do
    let decided ← seqRecoveryCells r seq
    return (decided.2, some decided.1)
  | .reset => do
    let r ← seqRecoveryResetCells r
    return (r, none)

/-- A run, up to its end or to the first access outside of a history. -/
def cellRun (r : SequenceRecovery) : List RecoveryEvent → Except Int SequenceRecovery
  | [] => .ok r
  | ev :: evs => do
    let next ← cellStep r ev
    cellRun next.1 evs

end Dnt
