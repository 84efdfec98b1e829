import Dnt.Core.SeqGen

/-!
# Discards Inside the Window

A seamless recovery may drop a packet for being a copy of one it has passed. The
runs here carry the numbers passed in each space since its last restart.

A marked cell should mean that its number has been passed. A timer reset empties the
history, but a RESET flag and the end of the initial numbers only raise `take_any`
and leave the old cells in place. They then stand for numbers around the new one,
which nobody has sent, and packets with those numbers are dropped.

## Main definitions

* `Watched`: A recovery object with the numbers passed in each space.
* `DiscardJustified`: A packet inside the window is dropped only if its number was passed.
* `CleanRestart`: A restart finds the cells behind the first one empty.

## Theorems

* `seamless_discards_justified_of_clean`: Clean restarts make every discard justified, and
  after any other restart some discard is not.
-/

namespace Dnt

open Function

open Mealy

variable {passed : List Nat} {H seq : Nat} {sp : SeqSpace}

open SequenceRecovery

/-- A recovery object, and for each of its number spaces the numbers passed
since the last restart. -/
structure Watched where
  recovery : SequenceRecovery
  passed : Bool → List Nat

/-- The numbers passed since the last restart, after one more packet: accepted
under `take_any` it starts a new list, otherwise accepted it extends the
old one. -/
def passedAfter (restart accept : Bool) (seq : Nat) (passed : List Nat) : List Nat :=
  if restart = true then [seq] else if accept = true then seq :: passed else passed

/-- One event. A timer reset only prepares restarts. -/
def watchedStep (s : Watched) : RecoveryEvent → Watched × Option Bool
  | .packet seq =>
    let init := isInitPacket s.recovery seq
    let res := seqRecovery s.recovery seq
    let restart := ((seamlessRestarts s.recovery seq).space init).takeAny
    let numbers := passedAfter restart res.1 (seq % 65536) (s.passed init)
    (⟨res.2, update s.passed init numbers⟩, some res.1)
  | .reset => (⟨seqRecoveryReset s.recovery, s.passed⟩, none)

/-- The signed distance of a packet to the newest number of its space. -/
def packetDelta (r : SequenceRecovery) (seq : Nat) : Int :=
  calcDelta (seq % 65536 : Nat) (r.space (isInitPacket r seq)).recvSeq

/-- A packet inside the history window is only dropped when its number has been
passed in its space since the last restart. -/
def DiscardJustified (s : Watched) : RecoveryEvent → Prop
  | .packet seq =>
    -s.recovery.historyLength < packetDelta s.recovery seq → packetDelta s.recovery seq ≤ 0 →
      (seqRecovery s.recovery seq).1 = false →
      seq % 65536 ∈ s.passed (isInitPacket s.recovery seq)
  | .reset => True

instance (s : Watched) (ev : RecoveryEvent) : Decidable (DiscardJustified s ev) := by
  cases ev <;> unfold DiscardJustified <;> infer_instance

/-- A packet that is accepted under `take_any` finds the cells behind the first
one empty, as far as any distance can reach. -/
def CleanRestart (s : Watched) : RecoveryEvent → Prop
  | .packet seq =>
    ((seamlessRestarts s.recovery seq).space (isInitPacket s.recovery seq)).takeAny = true →
      ∀ i : Nat, 1 ≤ i → i < s.recovery.historyLength → i ≤ 32768 →
        (s.recovery.space (isInitPacket s.recovery seq)).history.getD i false = false
  | .reset => True

/-- Cells of a space in use stand for numbers that have been passed. -/
structure Sound (H : Nat) (sp : SeqSpace) (passed : List Nat) : Prop where
  length : sp.history.length = H
  small : ∀ x ∈ passed, x < 65536
  seen : sp.takeAny = false → ∀ i < H, i ≤ 32768 → sp.history.getD i false = true →
    ∃ x ∈ passed, ((x : Int) - sp.recvSeq + i) % 65536 = 0

open List

theorem sound_of_takeAny (hlength : sp.history.length = H) (hsmall : ∀ x ∈ passed, x < 65536)
    (htake : sp.takeAny = true) : Sound H sp passed := by
  refine ⟨hlength, hsmall, fun hfalse => ?_⟩
  rw [htake] at hfalse
  exact absurd hfalse.symm Bool.false_ne_true

theorem sound_setTakeAny (b : Bool) (h : Sound H sp passed) :
    Sound H { sp with takeAny := sp.takeAny || b } passed := by
  refine ⟨h.length, h.small, fun htake => ?_⟩
  simp only [Bool.or_eq_false_iff] at htake
  exact h.seen htake.1

theorem sound_restart (hH : 1 ≤ H) (hseq : seq < 65536) (hlength : sp.history.length = H)
    (hclean : ∀ i : Nat, 1 ≤ i → i < H → i ≤ 32768 → sp.history.getD i false = false) :
    Sound H ⟨seq, false, sp.history.set 0 true⟩ [seq] := by
  refine ⟨?_, ?_, ?_⟩
  · rw [length_set, hlength]
  · intro x hx
    rw [mem_singleton.mp hx]
    exact hseq
  · intro _ i hi hreach hbit
    simp only [] at hbit ⊢
    rw [Window.getD_set _ 0 i (by omega)] at hbit
    by_cases hzero : i = 0
    · exact ⟨seq, mem_singleton_self seq, by omega⟩
    · rw [if_neg hzero, hclean i (by omega) hi hreach] at hbit
      exact absurd hbit Bool.false_ne_true

/-- One packet of a space: the cells keep their meaning, and a packet dropped
inside the window had been passed. -/
theorem sound_recoverCase (hH : 1 ≤ H) {r : SequenceRecovery} (hseq : seq < 65536) {init : Bool}
    (hlen : r.historyLength = H) (h : Sound H (r.space init) passed)
    (hclean : (r.space init).takeAny = true →
      ∀ i : Nat, 1 ≤ i → i < H → i ≤ 32768 → (r.space init).history.getD i false = false)
    {acc : Bool} {c : RecoveryCounts} (hcase : RecoverCase r seq init acc sp c) :
    Sound H sp (passedAfter (r.space init).takeAny acc seq passed) ∧
      (-(H : Int) < calcDelta seq (r.space init).recvSeq →
        calcDelta seq (r.space init).recvSeq ≤ 0 → acc = false → seq ∈ passed) := by
  -- all that is needed of the distance: what it is congruent to, and its range
  have hdelta : ((seq : Int) - (r.space init).recvSeq -
      calcDelta seq (r.space init).recvSeq) % 65536 = 0 ∧
      -32768 ≤ calcDelta seq (r.space init).recvSeq := by
    simp only [calcDelta, frerRcvySeqSpace]
    split_ifs <;> omega
  cases hcase with
  | restart htake =>
    -- the only branch that needs the other cells to be clear
    refine ⟨?_, fun _ _ hacc => absurd hacc (by decide)⟩
    rw [passedAfter, if_pos htake]
    exact sound_restart hH hseq h.length (hclean htake)
  | rogue htake hout =>
    refine ⟨?_, fun hlow hhigh _ => by omega⟩
    rw [passedAfter, htake, if_neg Bool.false_ne_true, if_neg Bool.false_ne_true]
    exact h
  | seen htake hlow hhigh hold =>
    rw [passedAfter, htake, if_neg Bool.false_ne_true, if_neg Bool.false_ne_true]
    refine ⟨h, fun _ _ _ => ?_⟩
    -- the cell stands for a number congruent to the packet's
    rcases h.seen htake _ (by omega) (by omega) hold with ⟨x, hx, hmod⟩
    have hsmall := h.small x hx
    obtain rfl : x = seq := by omega
    exact hx
  | late htake hlow hhigh hnew =>
    refine ⟨?_, fun _ _ hacc => absurd hacc (by decide)⟩
    rw [passedAfter, htake, if_neg Bool.false_ne_true, if_pos rfl]
    refine ⟨by rw [length_set, h.length], ?_, ?_⟩
    · intro x hx
      rcases mem_cons.mp hx with rfl | hx
      · exact hseq
      · exact h.small x hx
    · intro _ i hi hreach hbit
      simp only [] at hbit ⊢
      rw [Window.getD_set _ _ i (by rw [h.length]; omega)] at hbit
      -- the cell just marked stands for this packet, the others for the same as before
      by_cases heq : i = (-calcDelta seq (r.space init).recvSeq).toNat
      · exact ⟨seq, mem_cons_self, by omega⟩
      · rw [if_neg heq] at hbit
        rcases h.seen htake i hi hreach hbit with ⟨x, hx, hmod⟩
        exact ⟨x, mem_cons_of_mem _ hx, hmod⟩
  | ahead htake hlow hhigh =>
    refine ⟨?_, fun _ hle _ => by omega⟩
    have hne : (r.space init).history ≠ [] := length_pos_iff.mp (by rw [h.length]; omega)
    rw [passedAfter, htake, if_neg Bool.false_ne_true, if_pos rfl]
    refine ⟨by rw [Window.length_advance _ _ hne, h.length], ?_, ?_⟩
    · intro x hx
      rcases mem_cons.mp hx with rfl | hx
      · exact hseq
      · exact h.small x hx
    · intro _ i hi hreach hbit
      simp only [] at hbit ⊢
      rw [Window.getD_advance _ (by omega) (by rw [h.length]; exact hi)] at hbit
      -- the first cell is the packet, the next ones are empty, the rest have moved
      by_cases hzero : i = 0
      · exact ⟨seq, mem_cons_self, by omega⟩
      by_cases hskip : i < (calcDelta seq (r.space init).recvSeq).toNat
      · rw [if_neg hzero, if_pos hskip] at hbit
        exact absurd hbit Bool.false_ne_true
      · rw [if_neg hzero, if_neg hskip] at hbit
        rcases h.seen htake _ (by omega) (by omega) hbit with ⟨x, hx, hmod⟩
        exact ⟨x, mem_cons_of_mem _ hx, by omega⟩

structure WatchedSound (H : Nat) (s : Watched) : Prop where
  algorithm : s.recovery.algorithm = .rcvySeamlessVector
  historyLength : s.recovery.historyLength = H
  spaces : ∀ init, Sound H (s.recovery.space init) (s.passed init)

theorem seamlessRestarts_space (r : SequenceRecovery) (seq : Nat) (init : Bool) :
    ∃ b, (seamlessRestarts r seq).space init =
      { r.space init with takeAny := (r.space init).takeAny || b } := by
  cases hpacket : isInitPacket r seq with
  | true =>
    rcases seamlessRestarts_init hpacket with ⟨hinitial, hregular⟩
    cases init with
    | true => exact ⟨_, hinitial⟩
    | false => exact ⟨_, hregular⟩
  | false =>
    rcases seamlessRestarts_regular hpacket with ⟨hinitial, hregular⟩
    cases init with
    | true =>
      refine ⟨false, ?_⟩
      rw [Bool.or_false]
      exact hinitial
    | false => exact ⟨_, hregular⟩

theorem seqRecovery_seamless (r : SequenceRecovery) (seq : Nat)
    (h : r.algorithm = .rcvySeamlessVector) : seqRecovery r seq =
      recover (seamlessRestarts r seq) (seq % 65536) (isInitPacket r seq) := by
  rw [seqRecovery, h, seamlessSeqRecovery]

theorem watchedSound_packet (hH : 1 ≤ H) (h : WatchedSound H s)
    (hclean : CleanRestart s (.packet seq)) :
    WatchedSound H (watchedStep s (.packet seq)).1 ∧ DiscardJustified s (.packet seq) := by
  have hconf := seamlessRestarts_sameConf s.recovery seq
  have hlen : (seamlessRestarts s.recovery seq).historyLength = H := by
    rw [hconf.historyLength, h.historyLength]
  -- the flags are looked at first, and keep both spaces sound
  have hsound : ∀ init, Sound H ((seamlessRestarts s.recovery seq).space init)
      (s.passed init) := by
    intro init
    rcases seamlessRestarts_space s.recovery seq init with ⟨b, hb⟩
    rw [hb]
    exact sound_setTakeAny b (h.spaces init)
  rcases seamlessRestarts_space s.recovery seq (isInitPacket s.recovery seq) with ⟨b, hb⟩
  have hhist : ((seamlessRestarts s.recovery seq).space (isInitPacket s.recovery seq)).history =
      (s.recovery.space (isInitPacket s.recovery seq)).history := by
    rw [hb]
  have hrecv : ((seamlessRestarts s.recovery seq).space (isInitPacket s.recovery seq)).recvSeq =
      (s.recovery.space (isInitPacket s.recovery seq)).recvSeq := by
    rw [hb]
  have hclean' : ((seamlessRestarts s.recovery seq).space
      (isInitPacket s.recovery seq)).takeAny = true →
      ∀ i : Nat, 1 ≤ i → i < H → i ≤ 32768 →
        ((seamlessRestarts s.recovery seq).space
          (isInitPacket s.recovery seq)).history.getD i false = false := by
    intro htake i hlow hhigh hreach
    rw [hhist]
    exact hclean htake i hlow (by rw [h.historyLength]; omega) hreach
  rcases sound_recoverCase hH (Nat.mod_lt _ (by decide)) hlen (hsound _) hclean'
    (recover_case _ _ _) with ⟨hspace, hjust⟩
  rcases recover_frame (seamlessRestarts s.recovery seq) (seq % 65536)
    (isInitPacket s.recovery seq) with ⟨hsame, hother⟩
  constructor
  · simp only [watchedStep, seqRecovery_seamless s.recovery seq h.algorithm]
    refine ⟨?_, ?_, ?_⟩
    · rw [hsame.algorithm, hconf.algorithm, h.algorithm]
    · rw [hsame.historyLength, hlen]
    · intro init
      by_cases hinit : init = isInitPacket s.recovery seq
      · simp only [hinit, update_self]
        exact hspace
      · -- the other space only saw the flags
        have hnot : init = !isInitPacket s.recovery seq := Bool.eq_not_of_ne hinit
        simp only [update_of_ne hinit]
        rw [hnot, hother]
        exact hsound _
  · intro hlow hhigh hdrop
    rw [seqRecovery_seamless s.recovery seq h.algorithm] at hdrop
    rw [packetDelta, ← hrecv] at hlow hhigh
    rw [h.historyLength] at hlow
    exact hjust hlow hhigh hdrop

theorem watchedSound_reset (h : WatchedSound H s) : WatchedSound H (watchedStep s .reset).1 := by
  have hreset : seqRecoveryReset s.recovery = seamlessSeqRecoveryReset { s.recovery with
      seqRecoveryResets := intSucc s.recovery.seqRecoveryResets
      regular := { s.recovery.regular with takeAny := true } } := by
    simp only [seqRecoveryReset, h.algorithm]
  have hlen : (List.replicate s.recovery.historyLength.toNat false).length = H := by
    rw [length_replicate, h.historyLength, Int.toNat_natCast]
  simp only [watchedStep, hreset]
  refine ⟨h.algorithm, h.historyLength, ?_⟩
  intro init
  cases init with
  | true => exact sound_of_takeAny hlen (h.spaces true).small rfl
  | false => exact sound_of_takeAny hlen (h.spaces false).small rfl

theorem watchedStep_sound (hH : 1 ≤ H) {ev : RecoveryEvent} (h : WatchedSound H s)
    (hclean : CleanRestart s ev) : WatchedSound H (watchedStep s ev).1 ∧ DiscardJustified s ev := by
  cases ev with
  | packet seq => exact watchedSound_packet hH h hclean
  | reset => exact ⟨watchedSound_reset h, trivial⟩

/-- A fresh recovery object has passed nothing. -/
def watch (r : SequenceRecovery) : Watched :=
  ⟨r, fun _ => []⟩

theorem watch_sound (hint : H < 2147483648) (useReset useInit : Bool) (resetMsec : Nat) :
    WatchedSound H (watch (newSeqRec .rcvySeamlessVector useReset useInit H resetMsec)) := by
  refine ⟨rfl, newSeqRec_historyLength _ _ _ _ hint, ?_⟩
  intro init
  have hsmall : ∀ x ∈ ([] : List Nat), x < 65536 := fun x hx => absurd hx not_mem_nil
  cases init with
  | true | false => exact sound_of_takeAny length_replicate hsmall rfl

/-- The number `i` behind `seq`, as a packet of a given space. -/
def numberBehind (seq i : Nat) (init : Bool) : Nat :=
  sequenceWord ((seq % 65536 + 65536 - i) % 65536) false init

theorem seamlessRestarts_own (r : SequenceRecovery) (seq : Nat)
    (h : seq.testBit frerResetFlagBit = false) :
    (seamlessRestarts r seq).space (isInitPacket r seq) = r.space (isInitPacket r seq) := by
  cases hpacket : isInitPacket r seq with
  | true =>
    have hinitial := (seamlessRestarts_init hpacket).1
    rw [h, Bool.false_and, Bool.or_false] at hinitial
    exact hinitial
  | false =>
    have hregular := (seamlessRestarts_regular hpacket).2
    rw [h, Bool.false_and, Bool.and_false, Bool.or_false] at hregular
    exact hregular

theorem numberBehind_lt (seq i : Nat) : (seq % 65536 + 65536 - i) % 65536 < 65536 :=
  Nat.mod_lt _ (by decide)

/-- A packet of the space `init`, with the flags of another one's configuration,
belongs to that space again. -/
theorem isInitPacket_numberBehind (r r' : SequenceRecovery) (hsame : r.SameConf r') (seq i : Nat) :
    isInitPacket r' (numberBehind seq i (isInitPacket r seq)) = isInitPacket r seq := by
  cases hpacket : isInitPacket r seq with
  | true =>
    simp only [isInitPacket, Bool.and_eq_true] at hpacket
    simp [isInitPacket, numberBehind, hsame.useResetFlag, hsame.useInitFlag, hpacket.1.1,
      hpacket.1.2, sequenceWord_testBit_init _ _ (numberBehind_lt seq i)]
  | false =>
    simp [isInitPacket, numberBehind, sequenceWord_testBit_init _ _ (numberBehind_lt seq i)]

/-- After a restart that finds a marked cell, the packet that cell now stands
for is dropped, though no such packet has been passed. -/
theorem unclean_restart_violates (h : WatchedSound H s)
    (hunclean : ¬ CleanRestart s (.packet seq)) :
    ∃ seq', ¬ DiscardJustified (watchedStep s (.packet seq)).1 (.packet seq') := by
  simp only [CleanRestart, not_forall, Bool.not_eq_false] at hunclean
  rcases hunclean with ⟨htake, i, hlow, hhigh, hreach, hcell⟩
  rw [h.historyLength] at hhigh
  rcases seamlessRestarts_space s.recovery seq (isInitPacket s.recovery seq) with ⟨b, hb⟩
  have hconf := seamlessRestarts_sameConf s.recovery seq
  have hspace := (recover_restart _ (seq % 65536) _ htake).2
  have hsame := (recover_frame (seamlessRestarts s.recovery seq) (seq % 65536)
    (isInitPacket s.recovery seq)).1
  rw [← seqRecovery_seamless s.recovery seq h.algorithm] at hspace hsame
  have hsame' : s.recovery.SameConf (seqRecovery s.recovery seq).2 := hconf.trans hsame
  -- the packet standing for the marked cell
  have hpacket := isInitPacket_numberBehind s.recovery (seqRecovery s.recovery seq).2 hsame' seq i
  have hmod : numberBehind seq i (isInitPacket s.recovery seq) % 65536 =
      (seq % 65536 + 65536 - i) % 65536 :=
    @sequenceWord_mod _ _ _ (numberBehind_lt seq i)
  have hown := seamlessRestarts_own (seqRecovery s.recovery seq).2
    (numberBehind seq i (isInitPacket s.recovery seq))
    (@sequenceWord_testBit_reset _ _ _ (numberBehind_lt seq i))
  rw [hpacket, hspace] at hown
  have hdelta : calcDelta ((seq % 65536 + 65536 - i) % 65536 : Nat) (seq % 65536 : Nat) =
      -(i : Int) :=
    @calcDelta_eq _ _ _ (by omega) (by omega) (by omega)
  refine ⟨numberBehind seq i (isInitPacket s.recovery seq), fun hjust => ?_⟩
  -- it is in the window and dropped, but the restart left only `seq` passed
  have hmem := hjust ?_ ?_ ?_
  · simp only [watchedStep, hpacket, hmod, htake, passedAfter, if_true, update_self,
      mem_singleton] at hmem
    omega
  · simp only [watchedStep, packetDelta, hpacket, hspace, hmod, hdelta, hsame'.historyLength,
      h.historyLength]
    omega
  · simp only [watchedStep, packetDelta, hpacket, hspace, hmod, hdelta]
    omega
  · simp only [watchedStep]
    rw [seqRecovery_seamless _ _ (hsame'.algorithm.trans h.algorithm), hpacket, hmod]
    refine (recover_drop _ _ _ ?_ (Or.inr (Or.inr ?_))).1
    · rw [hown]
    · rw [hown, hdelta, Int.neg_neg, Int.toNat_natCast]
      refine ⟨by omega, ?_⟩
      simp only [hb]
      rw [Window.getD_set _ 0 i ?_, if_neg (by omega)]
      · exact hcell
      · rw [(h.spaces _).length]
        omega

/-- Over every run of a seamless recovery whose restarts all find clear cells, a
packet inside the window is only dropped when its number was passed in its space
since the last restart. After a restart that finds a marked cell, some packet is
dropped wrongly. -/
theorem seamless_discards_justified_of_clean (H : Nat) (hH : 1 ≤ H) (hint : H < 2147483648)
    (useReset useInit : Bool) (resetMsec : Nat) (evs : List RecoveryEvent)
    (hclean : EveryStep watchedStep CleanRestart
      (watch (newSeqRec .rcvySeamlessVector useReset useInit H resetMsec)) evs) :
    EveryStep watchedStep DiscardJustified
        (watch (newSeqRec .rcvySeamlessVector useReset useInit H resetMsec)) evs ∧
      ∀ seq, ¬ CleanRestart (final watchedStep
          (watch (newSeqRec .rcvySeamlessVector useReset useInit H resetMsec)) evs) (.packet seq) →
        ∃ seq', ¬ EveryStep watchedStep DiscardJustified
          (watch (newSeqRec .rcvySeamlessVector useReset useInit H resetMsec))
          (evs ++ [.packet seq, .packet seq']) := by
  have hstart := watch_sound hint useReset useInit resetMsec
  refine ⟨?_, fun seq hunclean => ?_⟩
  · exact everyStep_of_invariant (WatchedSound H) CleanRestart DiscardJustified
      (fun s ev h hc => watchedStep_sound hH h hc) hstart evs hclean
  · have hfinal := final_invariant_of_everyStep (WatchedSound H) CleanRestart
      (fun s ev h hc => (watchedStep_sound hH h hc).1) hstart evs hclean
    rcases unclean_restart_violates hfinal hunclean with ⟨seq', hbad⟩
    -- the violation is at the second of the two packets appended
    refine ⟨seq', fun hall => ?_⟩
    rw [everyStep_append] at hall
    exact hbad hall.2.2.1

/-- Started on an empty history, a late packet is passed and its copy dropped. -/
theorem seamless_discards_justified_late_copy :
    EveryStep watchedStep DiscardJustified
      (watch (newSeqRec .rcvySeamlessVector true true 2 2000))
      [.packet 5, .packet 4, .packet 4] :=
  (seamless_discards_justified_of_clean 2 (by decide) (by decide) true true 2000
    [.packet 5, .packet 4, .packet 4]
    ⟨fun _ i _ _ _ => Window.getD_replicate_false 2 i,
      fun htake => absurd htake (by decide +kernel),
      fun htake => absurd htake (by decide +kernel), trivial⟩).1

/-- A packet that comes before a restarted stream's first one is dropped for a
cell left over from before the restart. -/
theorem staleHistory_drops_new_packet :
    ¬ EveryStep watchedStep DiscardJustified
      (watch (newSeqRec .rcvySeamlessVector true false 4 2000))
      [.packet 10, .packet 11, .packet 12, .packet 13, .packet (sequenceWord 1000 true false),
        .packet 999] := by
  decide +kernel

end Dnt
