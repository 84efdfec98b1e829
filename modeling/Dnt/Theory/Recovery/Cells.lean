import Mathlib.Data.List.GetD
import Dnt.Core.ConfObject
import Dnt.Core.HistoryCells

/-!
# Accesses to the History

The vector algorithms write the first cell when any number is taken, the cell of a
late packet inside the window, and all cells in a shift or a reset. But any number of 32
bits can be configured. With a length of zero the first packet is written outside, and with
2147483648 or more the first reset clears far more than the array.

## Main definitions

* `CellsOk`: Both arrays have the configured length.

## Theorems

* `history_inBounds_iff`: No run has an access outside just if there is a first cell, and the
  length is the same as an `int` and as an `unsigned`.
-/

namespace Dnt

variable {H : Nat} {r : SequenceRecovery}

/-- Both arrays have the configured length. -/
structure CellsOk (H : Nat) (r : SequenceRecovery) : Prop where
  historyLength : r.historyLength = H
  regular : r.regular.history.length = H
  initial : r.initial.history.length = H

variable {init : Bool} {history : List Bool} {packetSeq : Nat}

open List

theorem CellsOk.space (h : CellsOk H r) (init : Bool) : (r.space init).history.length = H := by
  cases init with
  | false => exact h.regular
  | true => exact h.initial

/-! ## Shifts -/

theorem shiftSeqHistoryCells_eq (hH : 1 ≤ H) (l : LossCounters) (hlen : history.length = H)
    (newZero : Bool) :
    shiftSeqHistoryCells H l history newZero = .ok (shiftSeqHistory H l history newZero) := by
  cases history with
  | nil =>
    rw [length_nil] at hlen
    omega
  | cons a cells =>
    rw [length_cons] at hlen
    subst hlen
    have hlast : (((cells.length + 1 : Nat) : Int) - 1) = (cells.length : Nat) := by omega
    have hread := Cells.read_of_lt (a :: cells) cells.length (Nat.lt_succ_self _)
    have hwrite : Cells.write (a :: (a :: cells).dropLast) 0 newZero =
        .ok (newZero :: (a :: cells).dropLast) :=
      Cells.write_of_lt (a :: (a :: cells).dropLast) 0 newZero (Nat.zero_lt_succ _)
    have hget : (a :: cells).getD cells.length false = (a :: cells)[cells.length] :=
      getD_eq_getElem _ _ (Nat.lt_succ_self _)
    unfold shiftSeqHistoryCells shiftSeqHistory
    rw [hlast, hread, Int.toNat_natCast, hget]
    simp only [bind, Except.bind, Cells.shiftUp_cons, hwrite]
    rfl

theorem length_shiftSeqHistory (hH : 1 ≤ H) (l : LossCounters) (hlen : history.length = H)
    (newZero : Bool) : (shiftSeqHistory H l history newZero).2.length = H := by
  rw [shiftSeqHistory_snd, Window.length_slide, hlen]
  intro hnil
  rw [hnil, length_nil] at hlen
  omega

theorem shiftZerosCells_eq (hH : 1 ≤ H) (n : Nat) (l : LossCounters) (history : List Bool)
    (hlen : history.length = H) : shiftZerosCells H n l history = .ok (shiftZeros H n l history) ∧
      (shiftZeros H n l history).2.length = H := by
  induction n generalizing l history with
  | zero => exact ⟨rfl, hlen⟩
  | succ n ih =>
    obtain ⟨heq, hrest⟩ := ih (shiftSeqHistory H l history false).1
      (shiftSeqHistory H l history false).2 (length_shiftSeqHistory hH l hlen false)
    refine ⟨?_, hrest⟩
    simp only [shiftZerosCells, shiftSeqHistoryCells_eq hH l hlen, bind, Except.bind]
    exact heq

/-! ## Packets -/

theorem recoverCells_eq (hH : 1 ≤ H) (h : CellsOk H r) :
    recoverCells r packetSeq init = .ok (recover r packetSeq init) := by
  have hlen := h.space init
  have hconf := h.historyLength
  -- the branches of both are the same, and each access is shown to be inside
  by_cases htake : (r.space init).takeAny = true
  · have hwrite : Cells.write (r.space init).history 0 true =
        .ok ((r.space init).history.set 0 true) := Cells.write_of_lt _ 0 true (by omega)
    rw [recoverCells, recover, if_pos htake, if_pos htake, hwrite]
    rfl
  rw [recoverCells, recover, if_neg htake, if_neg htake]
  by_cases hout : calcDelta packetSeq (r.space init).recvSeq > r.historyLength ∨
      calcDelta packetSeq (r.space init).recvSeq ≤ -r.historyLength
  · rw [if_pos hout, if_pos hout]
  rw [if_neg hout, if_neg hout]
  by_cases hneg : calcDelta packetSeq (r.space init).recvSeq ≤ 0
  · -- a late packet, at a distance inside of the window
    rw [if_pos hneg, if_pos hneg]
    have hlate : (-calcDelta packetSeq (r.space init).recvSeq).toNat <
        (r.space init).history.length := by omega
    have hcast : -calcDelta packetSeq (r.space init).recvSeq =
        ((-calcDelta packetSeq (r.space init).recvSeq).toNat : Int) :=
      (Int.toNat_of_nonneg (by omega)).symm
    generalize (-calcDelta packetSeq (r.space init).recvSeq).toNat = i at hlate hcast
    rw [hcast, Cells.read_of_lt _ i hlate, Cells.write_of_lt _ i true hlate,
      getD_eq_getElem _ _ hlate]
    cases hcell : (r.space init).history[i] with
    | false | true => rfl
  · -- the window is moved
    rw [if_neg hneg, if_neg hneg, hconf]
    obtain ⟨hzeros, hmoved⟩ := shiftZerosCells_eq hH
      (calcDelta packetSeq (r.space init).recvSeq - 1).toNat r.loss (r.space init).history hlen
    have hshift := shiftSeqHistoryCells_eq hH
      (shiftZeros H (calcDelta packetSeq (r.space init).recvSeq - 1).toNat r.loss
        (r.space init).history).1 hmoved true
    simp only [hzeros, hshift, bind, Except.bind]
    rfl

theorem recover_cellsOk (hH : 1 ≤ H) (h : CellsOk H r) :
    CellsOk H (recover r packetSeq init).2 := by
  have hlen := h.space init
  have hspace : ((recover r packetSeq init).2.space init).history.length = H := by
    have hcase := recover_case r packetSeq init
    generalize (recover r packetSeq init).1 = acc, (recover r packetSeq init).2.space init = sp,
      (recover r packetSeq init).2.counts = c at hcase
    cases hcase with
    | restart _ => rw [length_set, hlen]
    | rogue _ _ => exact hlen
    | late _ _ _ _ => rw [length_set, hlen]
    | seen _ _ _ _ => exact hlen
    | ahead _ _ _ =>
      rw [Window.length_advance _ _ fun hnil => ?_, hlen]
      rw [hnil, length_nil] at hlen
      omega
  -- only the array of this space has changed
  obtain ⟨hconf, hother⟩ := recover_frame r packetSeq init
  have hlength : ((recover r packetSeq init).2.space (!init)).history.length = H := by
    rw [hother]
    exact h.space (!init)
  cases init with
  | false => exact ⟨hconf.historyLength.trans h.historyLength, hspace, hlength⟩
  | true => exact ⟨hconf.historyLength.trans h.historyLength, hlength, hspace⟩

theorem seamlessRestarts_cellsOk (h : CellsOk H r) (seq : Nat) :
    CellsOk H (seamlessRestarts r seq) := by
  unfold seamlessRestarts
  dsimp only
  split_ifs <;> exact ⟨h.historyLength, h.regular, h.initial⟩

theorem matchSeqRecovery_cellsOk (h : CellsOk H r) (seq : Nat) :
    CellsOk H (matchSeqRecovery r seq).2 := by
  unfold matchSeqRecovery
  dsimp only
  split_ifs <;> exact ⟨h.historyLength, h.regular, h.initial⟩

theorem seqRecoveryCells_eq (hH : 1 ≤ H) (h : CellsOk H r) (seq : Nat) :
    seqRecoveryCells r seq = .ok (seqRecovery r seq) ∧ CellsOk H (seqRecovery r seq).2 := by
  unfold seqRecoveryCells seqRecovery
  cases r.algorithm with
  | rcvyVector =>
    exact ⟨recoverCells_eq hH h, recover_cellsOk hH h⟩
  | rcvySeamlessVector =>
    have hrestarts := seamlessRestarts_cellsOk h seq
    exact ⟨recoverCells_eq hH hrestarts, recover_cellsOk hH hrestarts⟩
  | rcvyMatch => exact ⟨rfl, matchSeqRecovery_cellsOk h seq⟩

/-! ## Resets -/

/-- The count of `memset` is the length of the array, and not the huge number that a negative
`int` becomes. -/
theorem CellsOk.clear (h : CellsOk H r) (hint : H < 2 ^ 31) (history : List Bool)
    (hlen : history.length = H) :
    clearCells r.historyLength history = .ok (List.replicate r.historyLength.toNat false) ∧
      (List.replicate r.historyLength.toNat false).length = H := by
  have hcount : ((H : Int) % 2 ^ 64).toNat = H := by omega
  rw [h.historyLength, Int.toNat_natCast]
  refine ⟨?_, length_replicate⟩
  unfold clearCells Cells.fill
  rw [hcount, if_pos hlen.ge, drop_of_length_le hlen.le, append_nil]

theorem vectorSeqRecoveryResetCells_eq (hint : H < 2 ^ 31) (h : CellsOk H r) :
    vectorSeqRecoveryResetCells r = .ok (vectorSeqRecoveryReset r) ∧
      CellsOk H (vectorSeqRecoveryReset r) := by
  obtain ⟨hclear, hlen⟩ := h.clear hint _ h.regular
  refine ⟨?_, h.historyLength, hlen, h.initial⟩
  simp only [vectorSeqRecoveryResetCells, hclear, bind, Except.bind]
  rfl

theorem seamlessSeqRecoveryResetCells_eq (hint : H < 2 ^ 31) (h : CellsOk H r) :
    seamlessSeqRecoveryResetCells r = .ok (seamlessSeqRecoveryReset r) ∧
      CellsOk H (seamlessSeqRecoveryReset r) := by
  obtain ⟨heq, hvector⟩ := vectorSeqRecoveryResetCells_eq hint h
  obtain ⟨hclear, hlen⟩ := hvector.clear hint _ hvector.initial
  refine ⟨?_, hvector.historyLength, hvector.regular, hlen⟩
  simp only [seamlessSeqRecoveryResetCells, heq, hclear, bind, Except.bind]
  rfl

theorem seqRecoveryResetCells_eq (hint : H < 2 ^ 31) (h : CellsOk H r) :
    seqRecoveryResetCells r = .ok (seqRecoveryReset r) ∧ CellsOk H (seqRecoveryReset r) := by
  unfold seqRecoveryResetCells seqRecoveryReset
  dsimp only
  cases r.algorithm with
  | rcvyMatch => exact ⟨rfl, h.historyLength, h.regular, h.initial⟩
  | rcvyVector =>
    exact vectorSeqRecoveryResetCells_eq hint ⟨h.historyLength, h.regular, h.initial⟩
  | rcvySeamlessVector =>
    exact seamlessSeqRecoveryResetCells_eq hint ⟨h.historyLength, h.regular, h.initial⟩

/-! ## Runs -/

theorem cellStep_eq (hH : 1 ≤ H) (hint : H < 2 ^ 31) (h : CellsOk H r) (ev : RecoveryEvent) :
    cellStep r ev = .ok (recoveryStep r ev) ∧ CellsOk H (recoveryStep r ev).1 := by
  cases ev with
  | packet seq =>
    obtain ⟨heq, hok⟩ := seqRecoveryCells_eq hH h seq
    refine ⟨?_, hok⟩
    simp only [cellStep, heq, bind, Except.bind]
    rfl
  | reset =>
    obtain ⟨heq, hok⟩ := seqRecoveryResetCells_eq hint h
    refine ⟨?_, hok⟩
    simp only [cellStep, heq, bind, Except.bind]
    rfl

theorem cellRun_eq (hH : 1 ≤ H) (hint : H < 2 ^ 31) (r : SequenceRecovery) (h : CellsOk H r)
    (evs : List RecoveryEvent) : cellRun r evs = .ok (Mealy.final recoveryStep r evs) := by
  induction evs generalizing r with
  | nil => rfl
  | cons ev evs ih =>
    obtain ⟨heq, hok⟩ := cellStep_eq hH hint h ev
    simp only [cellRun, heq, bind, Except.bind]
    exact ih _ hok

theorem newSeqRec_cellsOk (algo : SequenceRecoveryAlgorithm) (useResetFlag useInitFlag : Bool)
    (resetMsec : Nat) (hint : H < 2 ^ 31) :
    CellsOk H (newSeqRec algo useResetFlag useInitFlag H resetMsec) :=
  ⟨newSeqRec_historyLength algo useResetFlag useInitFlag resetMsec hint,
    length_replicate, length_replicate⟩

/-! ## Lengths that do not work -/

theorem cellRun_zero {rcvy : RecParameters} (name : String) (halgo : rcvy.algo ≠ .rcvyMatch)
    (hzero : rcvy.historyLength = 0) :
    cellRun (rcvy.newRecovery name).recovery [.packet 0] = .error 0 := by
  obtain ⟨useReset, useInit, H, msec, diag, algo⟩ := rcvy
  dsimp only at hzero halgo
  subst hzero
  cases algo with
  | rcvyMatch => exact absurd rfl halgo
  | rcvyVector => rfl
  | rcvySeamlessVector => cases useReset <;> cases useInit <;> rfl

theorem cellRun_reset_error (halgo : r.algorithm ≠ .rcvyMatch) {i : Int}
    (hclear : clearCells r.historyLength r.regular.history = .error i) :
    cellRun r [.reset] = .error i := by
  have hreset : seqRecoveryResetCells r = .error i := by
    unfold seqRecoveryResetCells
    dsimp only
    cases hcase : r.algorithm with
    | rcvyMatch => exact absurd hcase halgo
    | rcvyVector => simp only [vectorSeqRecoveryResetCells, hclear, bind, Except.bind]
    | rcvySeamlessVector =>
      simp only [seamlessSeqRecoveryResetCells, vectorSeqRecoveryResetCells, hclear, bind,
        Except.bind]
  simp only [cellRun, cellStep, hreset, bind, Except.bind]

theorem clearCells_negative (hlow : 2147483648 ≤ H) (hhigh : H < 4294967296) :
    clearCells (Int.bmod H (2 ^ 32)) (List.replicate H false) = .error (H : Int) := by
  have hint : Int.bmod H (2 ^ 32) = (H : Int) - 4294967296 := by
    rw [Int.bmod_def]
    omega
  have hcount : (((H : Int) - 4294967296) % 2 ^ 64).toNat = H + 18446744069414584320 := by omega
  unfold clearCells Cells.fill
  rw [hint, hcount, length_replicate, if_neg (by omega)]

theorem newRecovery_historyLength (rcvy : RecParameters) (key : String) :
    (rcvy.newRecovery key).recovery.historyLength = Int.bmod rcvy.historyLength (2 ^ 32) := by
  simp only [RecParameters.newRecovery, newMonitoredRecovery, newMaskRecovery, newSeqRec]

/-- For every length that the configuration accepts, and both vector algorithms: no run of
packets and resets has an access outside of a history if and only if the length is at
least one and less than 2147483648. -/
theorem history_inBounds_iff (key : String) (desc : List Char) (info : ObjectInfo)
    (rcvy : RecParameters) (hconf : objectInfo key desc = .ok info)
    (hrec : info.parameters = some (.seqrec rcvy)) (halgo : rcvy.algo ≠ .rcvyMatch) :
    (∀ evs, ∃ r, cellRun (rcvy.newRecovery key).recovery evs = .ok r) ↔
      1 ≤ rcvy.historyLength ∧ rcvy.historyLength < 2 ^ 31 := by
  have hrange := objectInfo_inRange hconf rcvy hrec
  constructor
  · intro hall
    by_contra hbad
    by_cases hzero : rcvy.historyLength = 0
    · obtain ⟨r, hr⟩ := hall [.packet 0]
      rw [cellRun_zero key halgo hzero] at hr
      cases hr
    · obtain ⟨r, hr⟩ := hall [.reset]
      have hhigh := hrange.historyLength
      have hclear : clearCells (rcvy.newRecovery key).recovery.historyLength
          (rcvy.newRecovery key).recovery.regular.history =
            .error (rcvy.historyLength : Int) := by
        rw [newRecovery_historyLength]
        exact clearCells_negative (by omega) (by omega)
      rw [cellRun_reset_error halgo hclear] at hr
      cases hr
  · rintro ⟨hlow, hint⟩ evs
    exact ⟨_, cellRun_eq hlow hint _ (newSeqRec_cellsOk rcvy.algo rcvy.useResetFlag rcvy.useInitFlag
        rcvy.resetMsec hint) evs⟩

def historyParameters (historyLength : Nat) : RecParameters :=
  ⟨false, false, historyLength, 2000, ⟨2, 0, 0, 0, 0⟩, .rcvyVector⟩

/-- A history of 64 cells, in a run with a late packet and a reset. -/
theorem history_inBounds_sixtyFour :
    ∃ r, cellRun ((historyParameters 64).newRecovery "rec").recovery
      [.packet 5, .packet 68, .packet 6, .reset, .packet 1] = .ok r :=
  (history_inBounds_iff "rec" "SeqRcvy frerSeqRcvyHistoryLength=64".toList
    ⟨"rec", -1, some (.seqrec (historyParameters 64))⟩ (historyParameters 64) rfl rfl
    (by decide)).mpr (by decide) _

/-- A history without cells is accepted, and the first packet is written to its first cell. -/
theorem history_outOfBounds_zero :
    objectInfo "rec" "SeqRcvy frerSeqRcvyHistoryLength=0".toList =
        .ok ⟨"rec", -1, some (.seqrec (historyParameters 0))⟩ ∧
      cellRun ((historyParameters 0).newRecovery "rec").recovery [.packet 5] = .error 0 :=
  ⟨rfl, rfl⟩

end Dnt
