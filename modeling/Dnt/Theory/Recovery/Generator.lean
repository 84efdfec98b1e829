import Mathlib.Data.List.DropRight
import Dnt.Core.SeqGen

/-!
# Numbers and Flags of a Generator

What a generator sends is decided by how many packets it has sent since its last
reset. The numbers come out right whatever the flags and the start are. The RESET
flag is lowered when the counter in use has moved three numbers on, and at the
changeover there is a new counter. So it is up for too long if and only if the
initial space has three numbers or less.

## Main definitions

* `sinceReset`: How many packets were sent since the last reset.
* `GeneratorSent`: The state of a generator after some packets since its last reset.
* `sentWord`, `nextWord`: The next sequence word, by this number and by the code.

## Theorems

* `final_generatorSent`: A run leaves the generator where this number says.
* `generated_number`: The number and the INIT flag of each packet.
* `generated_resetFlag_iff`: Just the first three packets after a reset have the RESET flag,
  unless the initial space is in use and has three numbers or less.
-/

namespace Dnt

open Mealy

variable {gen : SequenceGenerator}

/-- The number of packets since the last reset, or since the start if there was
none. -/
def sinceReset (evs : List GeneratorEvent) : Nat :=
  (evs.rtakeWhile (· = .packet)).length

@[simp] theorem sinceReset_packet (evs : List GeneratorEvent) :
    sinceReset (evs ++ [.packet]) = sinceReset evs + 1 := by
  rw [sinceReset, List.rtakeWhile_concat_pos _ _ _ (by decide), List.length_append]
  rfl

@[simp] theorem sinceReset_reset (evs : List GeneratorEvent) :
    sinceReset (evs ++ [.reset]) = 0 := by
  rw [sinceReset, List.rtakeWhile_concat_neg _ _ _ (by decide), List.length_nil]

/-! ## One packet -/

variable {useReset : Bool} {k start : Nat}

theorem sequenceGeneration_conf (gen : SequenceGenerator) :
    (sequenceGeneration gen).2.useResetFlag = gen.useResetFlag ∧
      (sequenceGeneration gen).2.useInitFlag = gen.useInitFlag ∧
      (sequenceGeneration gen).2.initSeqStart = gen.initSeqStart := by
  unfold sequenceGeneration
  split_ifs <;> exact ⟨rfl, rfl, rfl⟩

/-- `k` packets have been sent in the initial number space. -/
structure CountsInitial (useReset : Bool) (start k : Nat) (gen : SequenceGenerator) : Prop where
  space : gen.useInitSeqSpace = true
  begins : gen.initSeqStart = start
  number : gen.initGenSeqNum = start + k
  flag : gen.resetFlag = (useReset && decide (k ≤ 3))

/-- `j` packets have been sent in the regular number space, the first of them
marked if `marked` says so. -/
structure CountsRegular (marked : Bool) (j : Nat) (gen : SequenceGenerator) : Prop where
  space : gen.useInitSeqSpace = false
  number : gen.genSeqNum = j % 65536
  flag : gen.resetFlag = (marked && decide (j ≤ 3))

theorem sequenceGeneration_initial (h : CountsInitial useReset start k gen)
    (hlt : start + k < 65536) :
    (sequenceGeneration gen).1 = sequenceWord (start + k) (useReset && decide (k < 3)) true ∧
      CountsInitial useReset start (k + 1) (sequenceGeneration gen).2 := by
  have hsmall : ¬ gen.initGenSeqNum > 65535 := by
    rw [h.number]
    omega
  -- the flag is lowered with the fourth packet, before the word is made
  have hflag : (if gen.initGenSeqNum + 1 >
      (gen.initSeqStart + frerSeqGenResetFlagCount) % 2 ^ 32 then false else gen.resetFlag) =
      (useReset && decide (k < 3)) := by
    rw [h.begins, h.number, h.flag, frerSeqGenResetFlagCount]
    grind
  unfold sequenceGeneration
  rw [if_pos h.space, if_neg hsmall, hflag]
  constructor
  · simp only [h.space, h.number]
    rw [Nat.mod_eq_of_lt hlt]
  · refine ⟨h.space, h.begins, ?_, rfl⟩
    simp only [h.number]
    omega

/-- The packet one past the last initial number has number zero, and is the first
regular one. The flag is as the initial space has left it. -/
theorem sequenceGeneration_changeover (h : CountsInitial useReset start k gen)
    (heq : start + k = 65536) :
    (sequenceGeneration gen).1 = sequenceWord 0 (useReset && decide (k ≤ 3)) false ∧
      CountsRegular (useReset && decide (k ≤ 3)) 1 (sequenceGeneration gen).2 := by
  have hbig : gen.initGenSeqNum > 65535 := by
    rw [h.number]
    omega
  unfold sequenceGeneration
  rw [if_pos h.space, if_pos hbig]
  constructor
  · simp [h.number, h.flag, heq]
  · refine ⟨rfl, rfl, ?_⟩
    simp [h.flag]

theorem sequenceGeneration_regular {marked : Bool} {j : Nat} (h : CountsRegular marked j gen) :
    (sequenceGeneration gen).1 = sequenceWord (j % 65536) (marked && decide (j < 3)) false ∧
      CountsRegular marked (j + 1) (sequenceGeneration gen).2 := by
  unfold sequenceGeneration
  rw [if_neg (by rw [h.space]; exact Bool.false_ne_true)]
  by_cases hwrap : gen.genSeqNum ≥ 65535
  · -- the numbers go around, and the flag is down for long
    have hnumber := h.number
    have hflag : gen.resetFlag = false := by
      rw [h.flag, decide_eq_false (by omega), Bool.and_false]
    rw [if_pos hwrap, decide_eq_false (by omega : ¬ j < 3), Bool.and_false]
    constructor
    · simp [h.number, hflag, h.space]
    · refine ⟨h.space, ?_, ?_⟩
      · simp only []
        omega
      · rw [decide_eq_false (by omega), Bool.and_false]
        exact hflag
  · have hflag : (if gen.genSeqNum + 1 > frerSeqGenResetFlagCount then false
        else gen.resetFlag) = (marked && decide (j < 3)) := by
      have hnumber := h.number
      rw [h.flag, frerSeqGenResetFlagCount]
      grind
    rw [if_neg hwrap, hflag]
    constructor
    · simp [h.number, h.space]
    · refine ⟨h.space, ?_, rfl⟩
      have hnumber := h.number
      simp only []
      omega

/-! ## Runs -/

/-- How many of `k` packets were sent in the regular space. -/
def regularCount (useInit : Bool) (start k : Nat) : Nat :=
  if useInit = true then start + k - 65536 else k

/-- The RESET flag is up when the first regular number is sent. -/
def marksRegular (useReset useInit : Bool) (start : Nat) : Bool :=
  useReset && (!useInit || decide (65533 ≤ start))

/-- The generator has sent `k` packets since its last reset. -/
structure GeneratorSent (useReset useInit : Bool) (start k : Nat) (gen : SequenceGenerator) :
    Prop where
  useResetFlag : gen.useResetFlag = useReset
  useInitFlag : gen.useInitFlag = useInit
  initSeqStart : gen.initSeqStart = start
  initial : useInit = true ∧ start + k ≤ 65536 → CountsInitial useReset start k gen
  regular : ¬ (useInit = true ∧ start + k ≤ 65536) →
    CountsRegular (marksRegular useReset useInit start) (regularCount useInit start k) gen

/-- The sequence word of the packet after `k` others. -/
def sentWord (useReset useInit : Bool) (start k : Nat) : Nat :=
  if useInit = true ∧ start + k < 65536 then
    sequenceWord (start + k) (useReset && decide (k < 3)) true
  else
    sequenceWord (regularCount useInit start k % 65536)
      (marksRegular useReset useInit start && decide (regularCount useInit start k < 3)) false

section Runs

variable {useReset useInit : Bool} {start : Nat}

theorem generatorSent_zero (hstart : start < 65536) (hreset : gen.useResetFlag = useReset)
    (hinit : gen.useInitFlag = useInit) (hfrom : gen.initSeqStart = start)
    (hspace : gen.useInitSeqSpace = useInit) (hnumber : gen.genSeqNum = 0)
    (hinitial : gen.initGenSeqNum = start) (hflag : gen.resetFlag = useReset) :
    GeneratorSent useReset useInit start 0 gen := by
  refine ⟨hreset, hinit, hfrom, ?_, ?_⟩
  · rintro ⟨huse, -⟩
    refine ⟨hspace.trans huse, hfrom, hinitial, ?_⟩
    rw [hflag, decide_eq_true (by omega), Bool.and_true]
  · intro hno
    have huse : useInit = false := by
      rw [Bool.eq_false_iff]
      exact fun huse => hno ⟨huse, by omega⟩
    refine ⟨hspace.trans huse, ?_, ?_⟩
    · rw [hnumber, regularCount, if_neg (by rw [huse]; exact Bool.false_ne_true)]
    · rw [hflag, marksRegular, regularCount, huse]
      simp

theorem newSeqGen_sent (hstart : start < 65536) :
    GeneratorSent useReset useInit start 0 (newSeqGen useReset useInit start) :=
  generatorSent_zero hstart rfl rfl rfl rfl rfl rfl rfl

theorem sequenceGenerationReset_sent (hstart : start < 65536)
    (h : GeneratorSent useReset useInit start k gen) :
    GeneratorSent useReset useInit start 0 (sequenceGenerationReset gen) :=
  generatorSent_zero hstart h.useResetFlag h.useInitFlag h.initSeqStart h.useInitFlag rfl
    h.initSeqStart h.useResetFlag

/-- One packet, in the three phases of an epoch: counting up the initial space, the changeover,
and the regular space. -/
theorem sequenceGeneration_sent (hstart : start < 65536)
    (h : GeneratorSent useReset useInit start k gen) :
    (sequenceGeneration gen).1 = sentWord useReset useInit start k ∧
      GeneratorSent useReset useInit start (k + 1) (sequenceGeneration gen).2 := by
  obtain ⟨hreset, hinit, hfrom⟩ := sequenceGeneration_conf gen
  rw [h.useResetFlag] at hreset
  rw [h.useInitFlag] at hinit
  rw [h.initSeqStart] at hfrom
  by_cases hinitial : useInit = true ∧ start + k ≤ 65536
  · have hcounts := h.initial hinitial
    rcases Nat.lt_or_eq_of_le hinitial.2 with hlt | heq
    · -- a number of the initial space
      obtain ⟨hword, hnext⟩ := sequenceGeneration_initial hcounts hlt
      rw [sentWord, if_pos ⟨hinitial.1, hlt⟩]
      refine ⟨hword, hreset, hinit, hfrom, fun _ => hnext, fun hno => ?_⟩
      exact absurd ⟨hinitial.1, by omega⟩ hno
    · -- the changeover: three or less numbers are before it if and only if it is marked
      obtain ⟨hword, hnext⟩ := sequenceGeneration_changeover hcounts heq
      have hmarks : (useReset && decide (k ≤ 3)) = marksRegular useReset useInit start := by
        rw [marksRegular, hinitial.1, Bool.not_true, Bool.false_or,
          decide_eq_decide.mpr (show k ≤ 3 ↔ 65533 ≤ start by omega)]
      have hcount : regularCount useInit start k = 0 := by
        rw [regularCount, if_pos hinitial.1]
        omega
      have hcount' : regularCount useInit start (k + 1) = 1 := by
        rw [regularCount, if_pos hinitial.1]
        omega
      rw [hmarks] at hword hnext
      rw [sentWord, if_neg (by omega), hcount]
      refine ⟨?_, hreset, hinit, hfrom, fun hno => ?_, fun _ => ?_⟩
      · rw [hword, decide_eq_true (by omega), Bool.and_true]
      · omega
      · rw [hcount']
        exact hnext
  · -- a number of the regular space
    obtain ⟨hword, hnext⟩ := sequenceGeneration_regular (h.regular hinitial)
    have hcount : regularCount useInit start (k + 1) = regularCount useInit start k + 1 := by
      unfold regularCount
      split_ifs with huse
      · have hbig : ¬ start + k ≤ 65536 := fun hle => hinitial ⟨huse, hle⟩
        omega
      · rfl
    rw [sentWord, if_neg fun hlt => hinitial ⟨hlt.1, Nat.le_of_lt hlt.2⟩]
    refine ⟨hword, hreset, hinit, hfrom, fun hno => ?_, fun _ => ?_⟩
    · exact absurd ⟨hno.1, by omega⟩ hinitial
    · rw [hcount]
      exact hnext

/-- After any run the generator is where the packets since the last reset have
brought it. -/
theorem final_generatorSent (hstart : start < 65536) (evs : List GeneratorEvent) :
    GeneratorSent useReset useInit start (sinceReset evs)
      (final generatorStep (newSeqGen useReset useInit start) evs) := by
  induction evs using List.reverseRecOn with
  | nil => exact newSeqGen_sent hstart
  | append_singleton evs ev ih =>
    rw [final_append, final_cons, final_nil]
    cases ev with
    | packet =>
      rw [sinceReset_packet]
      exact (sequenceGeneration_sent hstart ih).2
    | reset =>
      rw [sinceReset_reset]
      exact sequenceGenerationReset_sent hstart ih

end Runs

/-- The next sequence word of a new generator after a run. -/
def nextWord (useReset useInit : Bool) (start : Nat) (evs : List GeneratorEvent) : Nat :=
  (sequenceGeneration (final generatorStep (newSeqGen useReset useInit start) evs)).1

theorem nextWord_eq (useReset useInit : Bool) (hstart : start < 65536) (evs : List GeneratorEvent) :
    nextWord useReset useInit start evs = sentWord useReset useInit start (sinceReset evs) :=
  (sequenceGeneration_sent hstart (final_generatorSent hstart evs)).1

/-- The number and the INIT flag of the packet that comes `k` packets after the
last reset. With the init flag the numbers go up from the start, the flag set,
and then begin with zero, the flag clear. Without it they begin with zero. -/
theorem generated_number (useReset useInit : Bool) (start : Nat) (hstart : start < 65536)
    (evs : List GeneratorEvent) :
    let word := nextWord useReset useInit start evs
    let k := sinceReset evs
    (word % 65536, word.testBit frerInitFlagBit) =
      if useInit = true then
        if start + k < 65536 then (start + k, true) else ((start + k - 65536) % 65536, false)
      else (k % 65536, false) := by
  intro word k
  have hword : word = sentWord useReset useInit start k :=
    nextWord_eq useReset useInit hstart evs
  rw [hword, sentWord]
  by_cases hinitial : useInit = true ∧ start + k < 65536
  · rw [if_pos hinitial, if_pos hinitial.1, if_pos hinitial.2, sequenceWord_mod _ _ hinitial.2,
      sequenceWord_testBit_init _ _ hinitial.2]
  · have hlt : regularCount useInit start k % 65536 < 65536 := Nat.mod_lt _ (by decide)
    rw [if_neg hinitial, sequenceWord_mod _ _ hlt, sequenceWord_testBit_init _ _ hlt]
    unfold regularCount
    grind

/-- The start 65534 leaves two initial numbers. The third packet after the reset
has number zero. -/
theorem generated_number_changeover :
    (65534 < 65536) ∧
      (nextWord true true 65534 [.packet, .reset, .packet, .packet] % 65536,
        (nextWord true true 65534 [.packet, .reset, .packet, .packet]).testBit
          frerInitFlagBit) = (0, false) :=
  ⟨by decide, generated_number true true 65534 (by decide) [.packet, .reset, .packet, .packet]⟩

def markedCount (useInit : Bool) (start : Nat) : Nat :=
  if useInit = true ∧ 65533 ≤ start then 65536 - start + 3 else 3

theorem nextWord_testBit_reset (useInit : Bool) (hstart : start < 65536)
    (evs : List GeneratorEvent) : (nextWord true useInit start evs).testBit frerResetFlagBit =
      decide (sinceReset evs < markedCount useInit start) := by
  rw [nextWord_eq true useInit hstart evs, sentWord]
  unfold markedCount
  by_cases hinitial : useInit = true ∧ start + sinceReset evs < 65536
  · rw [if_pos hinitial, sequenceWord_testBit_reset _ _ hinitial.2, Bool.true_and, decide_eq_decide]
    split_ifs with hfew
    · omega
    · rfl
  · have hlt : regularCount useInit start (sinceReset evs) % 65536 < 65536 :=
      Nat.mod_lt _ (by decide)
    rw [if_neg hinitial, sequenceWord_testBit_reset _ _ hlt]
    unfold regularCount marksRegular
    by_cases huse : useInit = true
    · -- behind the changeover
      have hpast : ¬ start + sinceReset evs < 65536 := fun h => hinitial ⟨huse, h⟩
      rw [if_pos huse, huse, Bool.true_and, Bool.not_true, Bool.false_or, ← Bool.decide_and,
        decide_eq_decide]
      grind
    · rw [if_neg huse, if_neg fun h => huse h.1, Bool.eq_false_iff.mpr huse, Bool.true_and,
        Bool.not_false, Bool.true_or, Bool.true_and]

/-- The packets with the RESET flag are the first three after a reset, in every
run, if and only if the initial space is not in use or has more than three
numbers. -/
theorem generated_resetFlag_iff (useInit : Bool) (start : Nat) (hstart : start < 65536) :
    (∀ evs : List GeneratorEvent,
      ((nextWord true useInit start evs).testBit frerResetFlagBit = true ↔ sinceReset evs < 3)) ↔
      ¬ (useInit = true ∧ 65533 ≤ start) := by
  constructor
  · rintro hall ⟨huse, hfew⟩
    -- the fourth packet is marked, too
    have hfourth := hall [.packet, .packet, .packet]
    rw [nextWord_testBit_reset useInit hstart, decide_eq_true_iff, markedCount,
      if_pos ⟨huse, hfew⟩] at hfourth
    have hthree : sinceReset [.packet, .packet, .packet] = 3 := by decide
    rw [hthree] at hfourth
    omega
  · intro hno evs
    rw [nextWord_testBit_reset useInit hstart, decide_eq_true_iff, markedCount, if_neg hno]

/-- With the start 32768 that generators have by default. -/
theorem generated_resetFlag_default :
    (32768 < 65536) ∧
      ∀ evs : List GeneratorEvent,
        ((nextWord true true 32768 evs).testBit frerResetFlagBit = true ↔ sinceReset evs < 3) :=
  ⟨by decide, (generated_resetFlag_iff true 32768 (by decide)).mpr (by decide)⟩

/-- With the start 65535 the fourth packet is marked. -/
theorem generated_resetFlag_fourth :
    ¬ ∀ evs : List GeneratorEvent,
      ((nextWord true true 65535 evs).testBit frerResetFlagBit = true ↔ sinceReset evs < 3) := by
  intro hall
  have hfourth := hall [.packet, .packet, .packet]
  revert hfourth
  decide

end Dnt
