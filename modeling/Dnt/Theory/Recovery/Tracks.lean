import Dnt.Theory.Recovery.Stream

/-!
# Tracking the Stream

What a seamless recovery remembers of a stream whose leading copy has been delivered
up to a given stamp.

Most of this is about the present epoch. The regular space still holds the last
numbers of the previous one until the new epoch takes it over, and the initial space
does so where a restart is not noticed: its numbers wrap so nearly all the way
around that going back to the start looks like a short step ahead.

## Main definitions

* `Tracks`: The two spaces after the packet of a stamp.
* `Outcome`: The decision on a packet and the two spaces it leaves.

## Theorems

* `tracks_next`, `tracks_restart`: The next packet of the epoch, or the first one of the next
  epoch, is passed and tracked.
* `tracks_late`, `tracks_stale`: The other copy of a packet of this epoch, or of the epoch
  before, is dropped.
-/

namespace Dnt

variable {st : Stamp}

open SequenceRecovery

/-- A seamless recovery with both flags on and `H` history cells. -/
structure Configured (H : Nat) (r : SequenceRecovery) : Prop where
  algorithm : r.algorithm = .rcvySeamlessVector
  useResetFlag : r.useResetFlag = true
  useInitFlag : r.useInitFlag = true
  historyLength : r.historyLength = H

variable {reset : Bool} {H d i : Nat}

theorem configured_of_sameConf {r r' : SequenceRecovery} (h : Configured H r)
    (hsame : r.SameConf r') : Configured H r' :=
  ⟨hsame.algorithm.trans h.algorithm, hsame.useResetFlag.trans h.useResetFlag,
    hsame.useInitFlag.trans h.useInitFlag, hsame.historyLength.trans h.historyLength⟩

/-- The regular space after an initial packet: numbers near the end of the
range restart it. -/
def announceRegular (H : Nat) (seq : Nat) (sp : SeqSpace) : SeqSpace :=
  { sp with takeAny := sp.takeAny || decide (65536 ≤ seq + 3 * H ∧ seq + H < 65536) }

theorem announceRegular_of_takeAny {seq : Nat} {sp : SeqSpace}
    (h : 65536 ≤ seq + 3 * H → seq + H < 65536 → sp.takeAny = true) :
    announceRegular H seq sp = sp := by
  unfold announceRegular
  by_cases hrange : 65536 ≤ seq + 3 * H ∧ seq + H < 65536
  · rw [decide_eq_true hrange, Bool.or_true, ← h hrange.1 hrange.2]
  · rw [decide_eq_false hrange, Bool.or_false]

/-- The decision on a packet and the two spaces it leaves. -/
structure Outcome (H : Nat) (res : Bool × SequenceRecovery) (accept : Bool)
    (initial regular : SeqSpace) : Prop where
  accept : res.1 = accept
  initial : res.2.initial = initial
  regular : res.2.regular = regular
  configured : Configured H res.2

section Packets

variable {r : SequenceRecovery} (hconf : Configured H r) {seq : Nat} (hseq : seq < 65536)

include hconf hseq

/-- A packet with the INIT flag is recovered in the initial space, after the
flags have been looked at. -/
theorem seqRecovery_initWord (reset : Bool) :
    ∃ r1, seqRecovery r (sequenceWord seq reset true) = recover r1 seq true ∧ Configured H r1 ∧
      r1.initial = { r.initial with takeAny := r.initial.takeAny || (reset &&
        outsideResetIgnoreRange r (calcDelta seq r.initial.recvSeq)) } ∧
      r1.regular = announceRegular H seq r.regular := by
  -- the word's flags and number, as the recovery sees them
  have hinit : isInitPacket r (sequenceWord seq reset true) = true := by
    simp [isInitPacket, hconf.useResetFlag, hconf.useInitFlag,
      sequenceWord_testBit_init reset true hseq]
  have hmod := sequenceWord_mod reset true hseq
  rcases seamlessRestarts_init hinit with ⟨hinitial, hregular⟩
  rw [hmod, sequenceWord_testBit_reset reset true hseq] at hinitial
  rw [hmod] at hregular
  refine ⟨seamlessRestarts r (sequenceWord seq reset true), ?_, ?_, hinitial, ?_⟩
  · rw [seqRecovery, hconf.algorithm]
    simp only [seamlessSeqRecovery, hinit, hmod]
  · exact configured_of_sameConf hconf (seamlessRestarts_sameConf r _)
  · rw [hregular, announceRegular, hconf.historyLength, frerRcvySeqSpace]
    have hiff : ((seq : Int) ≥ 65536 - 3 * (H : Int) ∧ (seq : Int) < 65536 - (H : Int)) ↔
        (65536 ≤ seq + 3 * H ∧ seq + H < 65536) := by
      omega
    simp only [hiff]

theorem seqRecovery_regularWord :
    seqRecovery r (sequenceWord seq false false) = recover r seq false := by
  have hinit : isInitPacket r (sequenceWord seq false false) = false := by
    simp [isInitPacket, sequenceWord_testBit_init false false hseq]
  have hmod := sequenceWord_mod false false hseq
  -- without a RESET flag nothing is restarted
  have hsame : seamlessRestarts r (sequenceWord seq false false) = r := by
    simp [seamlessRestarts, hconf.useResetFlag, hinit, sequenceWord_testBit_reset false false hseq]
  rw [seqRecovery, hconf.algorithm]
  simp only [seamlessSeqRecovery, hinit, hmod, hsame]

/-- A restart of the initial space, by its `take_any` flag or by a RESET flag
on a far away number. -/
theorem initWord_restart (hrestart : r.initial.takeAny = true ∨
      (reset = true ∧ outsideResetIgnoreRange r (calcDelta seq r.initial.recvSeq) = true)) :
    Outcome H (seqRecovery r (sequenceWord seq reset true)) true
      ⟨seq, false, r.initial.history.set 0 true⟩ (announceRegular H seq r.regular) := by
  rcases seqRecovery_initWord hconf hseq reset with ⟨r1, hrec, hconf1, hinitial, hregular⟩
  have htake : (r1.space true).takeAny = true := by
    show r1.initial.takeAny = true
    rw [hinitial]
    rcases hrestart with h | ⟨hreset, hout⟩
    · simp [h]
    · simp [hreset, hout]
  rcases recover_restart r1 seq true htake with ⟨hacc, hspace⟩
  rcases recover_frame r1 seq true with ⟨hsame, hother⟩
  rw [hrec]
  refine ⟨hacc, hspace.trans ?_, hother.trans hregular, configured_of_sameConf hconf1 hsame⟩
  show (⟨seq, false, r1.initial.history.set 0 true⟩ : SeqSpace) = _
  rw [hinitial]

theorem initWord_ahead (reset : Bool) (htake : r.initial.takeAny = false)
    (hdelta : calcDelta seq r.initial.recvSeq = d) (hlow : 0 < d) (hhigh : d ≤ H) :
    Outcome H (seqRecovery r (sequenceWord seq reset true)) true
      ⟨seq, false, Window.advance r.initial.history d⟩ (announceRegular H seq r.regular) := by
  rcases seqRecovery_initWord hconf hseq reset with ⟨r1, hrec, hconf1, hinitial, hregular⟩
  -- the step is short enough for the RESET flag to be ignored
  have hnear : outsideResetIgnoreRange r (calcDelta seq r.initial.recvSeq) = false := by
    simp only [outsideResetIgnoreRange, hdelta, hconf.historyLength, Bool.or_eq_false_iff,
      decide_eq_false_iff_not]
    omega
  have hsp : r1.space true = r.initial := by
    show r1.initial = r.initial
    rw [hinitial, hnear, Bool.and_false, Bool.or_false]
  rcases recover_ahead r1 seq true (by rw [hsp, htake]) (by rw [hsp, hdelta]; omega)
    (by rw [hsp, hdelta, hconf1.historyLength]; omega) with ⟨hacc, hspace⟩
  rcases recover_frame r1 seq true with ⟨hsame, hother⟩
  rw [hsp, hdelta, Int.toNat_natCast] at hspace
  rw [hrec]
  exact ⟨hacc, hspace, hother.trans hregular, configured_of_sameConf hconf1 hsame⟩

theorem initWord_drop (htake : r.initial.takeAny = false) (hnear : reset = true →
      outsideResetIgnoreRange r (calcDelta seq r.initial.recvSeq) = false)
    (hdrop : (H : Int) < calcDelta seq r.initial.recvSeq ∨ calcDelta seq r.initial.recvSeq ≤ -H ∨
      (calcDelta seq r.initial.recvSeq ≤ 0 ∧
        r.initial.history.getD (-calcDelta seq r.initial.recvSeq).toNat false = true))
    (hrange : 65536 ≤ seq + 3 * H → seq + H < 65536 → r.regular.takeAny = true) :
    Outcome H (seqRecovery r (sequenceWord seq reset true)) false r.initial r.regular := by
  rcases seqRecovery_initWord hconf hseq reset with ⟨r1, hrec, hconf1, hinitial, hregular⟩
  -- the flags are looked at first, and neither of them changes a space here
  have hsp : r1.space true = r.initial := by
    show r1.initial = r.initial
    rw [hinitial]
    cases reset with
    | false => simp only [Bool.false_and, Bool.or_false]
    | true => rw [hnear rfl, Bool.and_false, Bool.or_false]
  rcases recover_drop r1 seq true (by rw [hsp, htake])
    (by rw [hsp, hconf1.historyLength]; exact hdrop) with ⟨hacc, hspace⟩
  rcases recover_frame r1 seq true with ⟨hsame, hother⟩
  rw [hrec]
  refine ⟨hacc, hspace.trans hsp, hother.trans (hregular.trans ?_),
    configured_of_sameConf hconf1 hsame⟩
  exact announceRegular_of_takeAny hrange

theorem regularWord_restart (htake : r.regular.takeAny = true) :
    Outcome H (seqRecovery r (sequenceWord seq false false)) true r.initial
      ⟨seq, false, r.regular.history.set 0 true⟩ := by
  rw [seqRecovery_regularWord hconf hseq]
  rcases recover_restart r seq false htake with ⟨hacc, hspace⟩
  rcases recover_frame r seq false with ⟨hsame, hother⟩
  exact ⟨hacc, hother, hspace, configured_of_sameConf hconf hsame⟩

theorem regularWord_ahead (htake : r.regular.takeAny = false)
    (hdelta : calcDelta seq r.regular.recvSeq = d) (hlow : 0 < d) (hhigh : d ≤ H) :
    Outcome H (seqRecovery r (sequenceWord seq false false)) true r.initial
      ⟨seq, false, Window.advance r.regular.history d⟩ := by
  rw [seqRecovery_regularWord hconf hseq]
  have hdelta' : calcDelta seq (r.space false).recvSeq = d := hdelta
  rcases recover_ahead r seq false htake (by rw [hdelta']; omega)
    (by rw [hdelta', hconf.historyLength]; omega) with ⟨hacc, hspace⟩
  rcases recover_frame r seq false with ⟨hsame, hother⟩
  rw [hdelta', Int.toNat_natCast] at hspace
  exact ⟨hacc, hother, hspace, configured_of_sameConf hconf hsame⟩

theorem regularWord_drop (htake : r.regular.takeAny = false)
    (hle : calcDelta seq r.regular.recvSeq ≤ 0)
    (hbit : r.regular.history.getD (-calcDelta seq r.regular.recvSeq).toNat false = true) :
    Outcome H (seqRecovery r (sequenceWord seq false false)) false r.initial r.regular := by
  rw [seqRecovery_regularWord hconf hseq]
  rcases recover_drop r seq false htake (Or.inr (Or.inr ⟨hle, hbit⟩)) with ⟨hacc, hspace⟩
  rcases recover_frame r seq false with ⟨hsame, hother⟩
  exact ⟨hacc, hother, hspace, configured_of_sameConf hconf hsame⟩

end Packets

/-- The recovery object after the leading path has delivered the packet stamped
`st`, the generator counting up from `start`. -/
structure Tracks (H start : Nat) (st : Stamp) (initial regular : SeqSpace) : Prop where
  initialLength : initial.history.length = H
  regularLength : regular.history.length = H
  /-- The initial space stands at the epoch's last initial number. -/
  initialTakeAny : initial.takeAny = false
  initialRecvSeq : initial.recvSeq = start + min st.offset (initLength start - 1)
  initialSeen : ∀ i < H, i ≤ min st.offset (initLength start - 1) →
    initial.history.getD i false = true
  /-- An unnoticed restart keeps the end of the previous epoch in the history. -/
  initialStale : ∀ L, st.prev = some L → 65537 ≤ H + min L (initLength start) →
    ∀ i < H, 65537 - min L (initLength start) + st.offset ≤ i → initial.history.getD i false = true
  /-- Past the changeover the regular space stands at the last number. -/
  regularCurrent : initLength start ≤ st.offset →
    regular.takeAny = false ∧ regular.recvSeq = (st.offset - initLength start) % 65536 ∧
      ∀ i < H, i ≤ st.offset - initLength start → regular.history.getD i false = true
  /-- Shortly before the changeover the regular space is ready to restart. -/
  regularPending : initLength start ≤ st.offset + 3 * H → st.offset < initLength start →
    regular.takeAny = true
  /-- Until then it holds the previous epoch's numbers, if there were any. -/
  regularStale : ∀ L, st.prev = some L → st.offset + 3 * H < initLength start →
    initLength start < L →
    regular.takeAny = false ∧ regular.recvSeq = (L - 1 - initLength start) % 65536 ∧
      ∀ i < H, i ≤ L - 1 - initLength start → regular.history.getD i false = true
  regularStalePending : ∀ L, st.prev = some L → st.offset + 3 * H < initLength start →
    initLength start < L + 3 * H → L ≤ initLength start → regular.takeAny = true

theorem tracks_newEpoch {start : Nat} (hH : 1 ≤ H) (hstart : start + 4 * H ≤ 65536)
    {initial initial' regular : SeqSpace} (h : Tracks H start st initial regular)
    (hlength : initial'.history.length = H) (htake : initial'.takeAny = false)
    (hrecv : initial'.recvSeq = start) (hseen : initial'.history.getD 0 false = true)
    (hstale : 65537 ≤ H + min (st.offset + 1) (initLength start) →
      ∀ i < H, 65537 - min (st.offset + 1) (initLength start) ≤ i →
        initial'.history.getD i false = true) :
    Tracks H start ⟨0, some (st.offset + 1)⟩ initial' regular := by
  have hlen := initLength_add start (by omega)
  -- the fields about the present epoch are about one packet, and those about
  -- the previous epoch are what was known of it when it was the present one
  refine ⟨hlength, h.regularLength, htake, ?_, ?_, ?_, ?_, ?_, ?_, ?_⟩
  · simp [hrecv]
  · intro i hi hle
    simp only [Nat.zero_min, Nat.le_zero] at hle
    rw [hle, hseen]
  · intro L hL hwrap i hi hle
    simp only [Option.some.injEq] at hL
    subst hL
    exact hstale hwrap i hi hle
  · intro hle
    simp only [] at hle
    omega
  · intro hle
    simp only [] at hle
    omega
  · intro L hL _ hlong
    simp only [Option.some.injEq] at hL
    subst hL
    rw [Nat.add_sub_cancel]
    exact h.regularCurrent (by omega)
  · intro L hL _ hnear hshort
    simp only [Option.some.injEq] at hL
    subst hL
    exact h.regularPending (by omega) (by omega)

/-- Past the changeover only the regular space moves on. -/
theorem tracks_regular {start : Nat} {initial regular regular' : SeqSpace}
    (h : Tracks H start st initial regular) (hle : initLength start ≤ st.offset + 1)
    (hlength : regular'.history.length = H) (htake : regular'.takeAny = false)
    (hrecv : regular'.recvSeq = (st.offset + 1 - initLength start) % 65536)
    (hseen : ∀ i < H, i ≤ st.offset + 1 - initLength start →
      regular'.history.getD i false = true) :
    Tracks H start { st with offset := st.offset + 1 } initial regular' where
  initialLength := h.initialLength
  regularLength := hlength
  initialTakeAny := h.initialTakeAny
  initialRecvSeq := by
    rw [h.initialRecvSeq]
    simp only []
    omega
  initialSeen i hi hle := by
    simp only [] at hle
    exact h.initialSeen i hi (by omega)
  initialStale L hL hwrap i hi hle := by
    simp only [] at hle
    exact h.initialStale L hL hwrap i hi (by omega)
  regularCurrent _ := ⟨htake, hrecv, hseen⟩
  regularPending _ hlt := absurd hle (Nat.not_le.mpr hlt)
  regularStale _ _ hfar := absurd hle (by simp only [] at hfar; omega)
  regularStalePending _ _ hfar := absurd hle (by simp only [] at hfar; omega)

section Tracking

variable {start : Nat} (hH : 1 ≤ H) (hstart : start + 4 * H ≤ 65536) {r : SequenceRecovery}
  (hconf : Configured H r)

include hH hstart hconf

theorem tracks_first (hinitial : r.initial = ⟨0, true, List.replicate H false⟩)
    (hregular : r.regular = ⟨0, true, List.replicate H false⟩) :
    ∃ initial regular, Outcome H (seqRecovery r (epochWord start 0)) true initial regular ∧
      Tracks H start ⟨0, none⟩ initial regular := by
  have hlen := initLength_add start (by omega)
  rw [epochWord_initial start 0 (by omega), Nat.add_zero]
  refine ⟨_, _, initWord_restart hconf (by omega) (Or.inl (by rw [hinitial])), ?_⟩
  refine ⟨?_, ?_, rfl, ?_, ?_, ?_, ?_, ?_, ?_, ?_⟩
  · simp [hinitial]
  · simp [announceRegular, hregular]
  · simp
  · intro i hi hle
    simp only [Nat.zero_min, Nat.le_zero] at hle
    simp only [hinitial, hle]
    rw [Window.getD_set _ 0 0 (by rw [List.length_replicate]; omega), if_pos rfl]
  · intro L hL
    exact absurd hL (by simp)
  · intro hle
    simp only [] at hle
    omega
  · intro _ _
    simp [announceRegular, hregular]
  · intro L hL
    exact absurd hL (by simp)
  · intro L hL
    exact absurd hL (by simp)

theorem tracks_next_initial (h : Tracks H start st r.initial r.regular)
    (hlt : st.offset + 1 < initLength start) : ∃ initial regular,
      Outcome H (seqRecovery r (epochWord start (st.offset + 1))) true initial regular ∧
      Tracks H start { st with offset := st.offset + 1 } initial regular := by
  have hlen := initLength_add start (by omega)
  have hrecv := h.initialRecvSeq
  rw [Nat.min_eq_left (by omega)] at hrecv
  have hdelta : calcDelta (start + (st.offset + 1) : Nat) r.initial.recvSeq = (1 : Nat) :=
    calcDelta_eq (by omega) (by omega) (by omega)
  rw [epochWord_initial start _ hlt]
  refine ⟨_, _, initWord_ahead hconf (by omega) _ h.initialTakeAny hdelta (by omega) hH, ?_⟩
  have hne : r.initial.history ≠ [] := List.length_pos_iff.mp (by rw [h.initialLength]; omega)
  have hcell := fun i (hi : i < H) =>
    Window.getD_advance_one r.initial.history i (by rw [h.initialLength]; exact hi)
  refine ⟨?_, h.regularLength, rfl, ?_, ?_, ?_, ?_, ?_, ?_, ?_⟩
  · rw [Window.length_advance _ _ hne, h.initialLength]
  · simp only []
    omega
  · intro i hi hle
    simp only [] at hle ⊢
    rw [hcell i hi]
    by_cases hzero : i = 0
    · rw [if_pos hzero]
    · rw [if_neg hzero]
      exact h.initialSeen (i - 1) (by omega) (by omega)
  · intro L hL hwrap i hi hle
    simp only [] at hle ⊢
    rw [hcell i hi, if_neg (by omega)]
    exact h.initialStale L hL hwrap (i - 1) (by omega) (by omega)
  · intro hle
    simp only [] at hle
    omega
  · intro hnear _
    simp only [] at hnear
    by_cases hend : st.offset + 1 + H < initLength start
    · -- this packet announces the changeover
      simp only [announceRegular, Bool.or_eq_true, decide_eq_true_eq]
      right
      omega
    · have hpend := h.regularPending (by omega) (by omega)
      simp [announceRegular, hpend]
  · intro L hL hfar hlong
    simp only [] at hfar
    rw [announceRegular_of_takeAny (fun hnear _ => absurd hnear (by omega))]
    exact h.regularStale L hL (by omega) hlong
  · intro L hL hfar hnear hshort
    simp only [] at hfar
    rw [announceRegular_of_takeAny (fun hnear _ => absurd hnear (by omega))]
    exact h.regularStalePending L hL (by omega) hnear hshort

theorem tracks_changeover (h : Tracks H start st r.initial r.regular)
    (heq : st.offset + 1 = initLength start) : ∃ initial regular,
      Outcome H (seqRecovery r (epochWord start (st.offset + 1))) true initial regular ∧
      Tracks H start { st with offset := st.offset + 1 } initial regular := by
  have hlen := initLength_add start (by omega)
  have hzero : (st.offset + 1 - initLength start) % 65536 = 0 := by omega
  rw [epochWord_regular start _ (by omega), hzero]
  -- the regular space was announced at least `H` packets ago
  have htake := h.regularPending (by omega) (by omega)
  refine ⟨_, _, regularWord_restart hconf (by omega) htake,
    tracks_regular h (by omega) ?_ rfl hzero.symm fun i hi hle => ?_⟩
  · rw [List.length_set, h.regularLength]
  · rw [Window.getD_set _ 0 i (by rw [h.regularLength]; omega), if_pos (by omega)]

theorem tracks_next_regular (h : Tracks H start st r.initial r.regular)
    (hle : initLength start ≤ st.offset) : ∃ initial regular,
      Outcome H (seqRecovery r (epochWord start (st.offset + 1))) true initial regular ∧
      Tracks H start { st with offset := st.offset + 1 } initial regular := by
  have hlen := initLength_add start (by omega)
  rcases h.regularCurrent hle with ⟨htake, hrecv, hseen⟩
  have hdelta : calcDelta ((st.offset + 1 - initLength start) % 65536 : Nat) r.regular.recvSeq =
      (1 : Nat) :=
    calcDelta_eq (by omega) (by omega) (by omega)
  rw [epochWord_regular start _ (by omega)]
  have hne : r.regular.history ≠ [] := List.length_pos_iff.mp (by rw [h.regularLength]; omega)
  refine ⟨_, _, regularWord_ahead hconf (by omega) htake hdelta (by omega) hH,
    tracks_regular h (by omega) ?_ rfl rfl fun i hi hi' => ?_⟩
  · rw [Window.length_advance _ _ hne, h.regularLength]
  · rw [Window.getD_advance_one _ i (by rw [h.regularLength]; exact hi)]
    grind

theorem tracks_next (h : Tracks H start st r.initial r.regular) : ∃ initial regular,
      Outcome H (seqRecovery r (epochWord start (st.offset + 1))) true initial regular ∧
      Tracks H start { st with offset := st.offset + 1 } initial regular := by
  rcases Nat.lt_trichotomy (st.offset + 1) (initLength start) with hlt | heq | hgt
  · exact tracks_next_initial hH hstart hconf h hlt
  · exact tracks_changeover hH hstart hconf h heq
  · exact tracks_next_regular hH hstart hconf h (by omega)

/-- The first packet of a new epoch. Its number is far behind the last one, so
the RESET flag restarts the initial space; or so far behind that it is
near again, and then it is a step ahead. -/
theorem tracks_restart (h : Tracks H start st r.initial r.regular)
    (hlong : 2 * H + 1 ≤ st.offset + 1) :
    ∃ initial regular, Outcome H (seqRecovery r (epochWord start 0)) true initial regular ∧
      Tracks H start ⟨0, some (st.offset + 1)⟩ initial regular := by
  have hlen := initLength_add start (by omega)
  have hrecv := h.initialRecvSeq
  have hsame : announceRegular H start r.regular = r.regular :=
    announceRegular_of_takeAny (fun hnear _ => absurd hnear (by omega))
  rw [epochWord_initial start 0 (by omega), Nat.add_zero]
  by_cases hwrap : 65537 ≤ H + min (st.offset + 1) (initLength start)
  · -- nearly all numbers were used: the start is a few steps ahead
    have hdelta : calcDelta start r.initial.recvSeq =
        (65537 - min (st.offset + 1) (initLength start) : Nat) :=
      calcDelta_eq (by omega) (by omega) (by omega)
    have hout := initWord_ahead hconf (by omega) (decide (0 < 3)) h.initialTakeAny
      hdelta (by omega) (by omega)
    rw [hsame] at hout
    have hne : r.initial.history ≠ [] := List.length_pos_iff.mp (by rw [h.initialLength]; omega)
    refine ⟨_, _, hout, tracks_newEpoch hH hstart h ?_ rfl rfl ?_ ?_⟩
    · rw [Window.length_advance _ _ hne, h.initialLength]
    · rw [Window.getD_advance _ (by omega) (by rw [h.initialLength]; omega), if_pos rfl]
    · intro _ i hi hle
      rw [Window.getD_advance _ (by omega) (by rw [h.initialLength]; exact hi),
        if_neg (by omega), if_neg (by omega)]
      exact h.initialSeen _ (by omega) (by omega)
  · -- the distance is read as a signed number, so more than half the range
    -- behind is ahead; it is too far in both readings
    have hfar : outsideResetIgnoreRange r (calcDelta start r.initial.recvSeq) = true := by
      by_cases hhalf : min (st.offset + 1) (initLength start) ≤ 32769
      · have hdelta : calcDelta start r.initial.recvSeq =
            -((min (st.offset + 1) (initLength start) - 1 : Nat) : Int) :=
          calcDelta_eq (by omega) (by omega) (by omega)
        simp only [outsideResetIgnoreRange, hdelta, hconf.historyLength, Bool.or_eq_true,
          decide_eq_true_eq]
        omega
      · have hdelta : calcDelta start r.initial.recvSeq =
            (65537 - min (st.offset + 1) (initLength start) : Nat) :=
          calcDelta_eq (by omega) (by omega) (by omega)
        simp only [outsideResetIgnoreRange, hdelta, hconf.historyLength, Bool.or_eq_true,
          decide_eq_true_eq]
        omega
    have hout := initWord_restart hconf (by omega) (Or.inr ⟨rfl, hfar⟩)
    rw [hsame] at hout
    refine ⟨_, _, hout, tracks_newEpoch hH hstart h ?_ rfl rfl ?_ ?_⟩
    · rw [List.length_set, h.initialLength]
    · rw [Window.getD_set _ 0 0 (by rw [h.initialLength]; omega), if_pos rfl]
    · intro habs
      exact absurd habs hwrap

theorem tracks_late (h : Tracks H start st r.initial r.regular) (hi : i < H) (hle : i ≤ st.offset) :
    Outcome H (seqRecovery r (epochWord start (st.offset - i))) false r.initial r.regular := by
  have hlen := initLength_add start (by omega)
  by_cases hinit : st.offset - i < initLength start
  · have hrecv := h.initialRecvSeq
    have hdelta : calcDelta (start + (st.offset - i) : Nat) r.initial.recvSeq =
        -((min st.offset (initLength start - 1) - (st.offset - i) : Nat) : Int) :=
      calcDelta_eq (by omega) (by omega) (by omega)
    rw [epochWord_initial start _ hinit]
    refine initWord_drop hconf (by omega) h.initialTakeAny ?_ (Or.inr (Or.inr ?_)) ?_
    · -- the number is too close for its RESET flag to matter
      intro _
      simp only [outsideResetIgnoreRange, hdelta, hconf.historyLength, Bool.or_eq_false_iff,
        decide_eq_false_iff_not]
      omega
    · rw [hdelta, Int.neg_neg, Int.toNat_natCast]
      exact ⟨by omega, h.initialSeen _ (by omega) (by omega)⟩
    · intro hnear hfar
      exact h.regularPending (by omega) (by omega)
  · rcases h.regularCurrent (by omega) with ⟨htake, hrecv, hseen⟩
    have hdelta : calcDelta ((st.offset - i - initLength start) % 65536 : Nat) r.regular.recvSeq =
        -(i : Int) :=
      calcDelta_eq (by omega) (by omega) (by omega)
    rw [epochWord_regular start _ (by omega)]
    refine regularWord_drop hconf (by omega) htake (by omega) ?_
    rw [hdelta, Int.neg_neg, Int.toNat_natCast]
    exact hseen i hi (by omega)

theorem tracks_stale (h : Tracks H start st r.initial r.regular) {L : Nat}
    (hprev : st.prev = some L) (hlong : 2 * H + 1 ≤ L) (hi : i < H) (hgt : st.offset < i) :
    Outcome H (seqRecovery r (epochWord start (L + st.offset - i))) false r.initial r.regular := by
  have hlen := initLength_add start (by omega)
  by_cases hinit : L + st.offset - i < initLength start
  · have hrecv := h.initialRecvSeq
    rw [Nat.min_eq_left (by omega)] at hrecv
    rw [epochWord_initial start _ hinit]
    refine initWord_drop hconf (by omega) h.initialTakeAny ?_ ?_ ?_
    · -- the RESET flag is long over at the end of an epoch
      intro hreset
      simp only [decide_eq_true_eq] at hreset
      omega
    · -- the old number is ahead of the new start, or behind it if it is so far
      -- ahead that the numbers wrap; then its mark may still be in the history
      by_cases hhalf : L - i < 32768
      · have hdelta : calcDelta (start + (L + st.offset - i) : Nat) r.initial.recvSeq =
            ((L - i : Nat) : Int) :=
          calcDelta_eq (by omega) (by omega) (by omega)
        left
        omega
      · have hdelta : calcDelta (start + (L + st.offset - i) : Nat) r.initial.recvSeq =
            -((65536 - (L - i) : Nat) : Int) :=
          calcDelta_eq (by omega) (by omega) (by omega)
        right
        by_cases hin : 65536 - (L - i) < H
        · right
          rw [hdelta, Int.neg_neg, Int.toNat_natCast]
          exact ⟨by omega, h.initialStale L hprev (by omega) _ hin (by omega)⟩
        · left
          omega
    · intro hnear hfar
      exact h.regularStalePending L hprev (by omega) (by omega) (by omega)
  · rcases h.regularStale L hprev (by omega) (by omega) with ⟨htake, hrecv, hseen⟩
    have hdelta : calcDelta ((L + st.offset - i - initLength start) % 65536 : Nat)
        r.regular.recvSeq = -((i - st.offset - 1 : Nat) : Int) :=
      calcDelta_eq (by omega) (by omega) (by omega)
    rw [epochWord_regular start _ (by omega)]
    refine regularWord_drop hconf (by omega) htake (by omega) ?_
    rw [hdelta, Int.neg_neg, Int.toNat_natCast]
    exact hseen _ (by omega) (by omega)

end Tracking

end Dnt
