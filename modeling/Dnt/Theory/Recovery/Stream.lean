import Mathlib.Data.List.ReduceOption
import Dnt.Theory.Recovery.Generator

/-!
# The Generated Stream

A generator with both flags on is described by how many packets it has sent since
its last restart. So the stream is the list of these offsets, and a restart is an
offset going back to zero. A packet's `Stamp` also keeps the length of the epoch
before its own, as the receiver has to cope with what was in flight.

## Main definitions

* `Stamp`, `stampsFrom`: Where in the stream a packet was sent, and the stamps of a schedule.
* `epochWord`: The sequence word of a packet at an offset.
* `Follows`: A stamp is the next of its epoch, or the first after an epoch that is long enough.

## Theorems

* `generatedWords_eq_epochWords`: The words of a generator are those of its stamps.
* `stampsFrom_isChain`: Each stamp follows the one before, if resets are far apart.
* `stamp_back`: What is found when looking back from a packet.
-/

namespace Dnt

open List

variable {evs : List GeneratorEvent} {n start offset : Nat} {gen : SequenceGenerator}

def beforeFirstReset (evs : List GeneratorEvent) : Nat :=
  (evs.takeWhile (· = .packet)).length

/-- Every reset comes after at least `n` packets since the one before it, when
`since` packets have been sent since the last reset. -/
def SpacedSince (n : Nat) : Nat → List GeneratorEvent → Prop
  | _, [] => True
  | since, .packet :: evs => SpacedSince n (since + 1) evs
  | since, .reset :: evs => n ≤ since ∧ SpacedSince n 0 evs

/-- At least `n` packets are sent between consecutive resets. Nothing is asked
of the packets before the first one. -/
def ResetsSpaced (n : Nat) : List GeneratorEvent → Prop
  | [] => True
  | .packet :: evs => ResetsSpaced n evs
  | .reset :: evs => SpacedSince n 0 evs

/-- Where in the stream a packet was sent: its position in its epoch, and the
length of the epoch before, if any. -/
structure Stamp where
  offset : Nat
  prev : Option Nat
  deriving DecidableEq, Repr

/-- The stamps of a schedule, when the next packet would be sent at `offset`.
A restart of an epoch without packets leaves no trace. -/
def stampsFrom : Stamp → List GeneratorEvent → List Stamp
  | _, [] => []
  | st, .packet :: evs => st :: stampsFrom { st with offset := st.offset + 1 } evs
  | st, .reset :: evs =>
    if st.offset = 0 then stampsFrom st evs else stampsFrom ⟨0, some st.offset⟩ evs

/-- The number of packets an epoch sends in the initial number space. -/
def initLength (start : Nat) : Nat :=
  65536 - start

/-- The sequence word sent at an offset. -/
def epochWord (start offset : Nat) : Nat :=
  if offset < initLength start then sequenceWord (start + offset) (decide (offset < 3)) true
  else sequenceWord ((offset - initLength start) % 65536) false false

theorem initLength_add (start : Nat) (h : start ≤ 65536) : initLength start + start = 65536 := by
  unfold initLength
  omega

theorem epochWord_initial (start offset : Nat) (h : offset < initLength start) :
    epochWord start offset = sequenceWord (start + offset) (decide (offset < 3)) true :=
  if_pos h

theorem epochWord_regular (start offset : Nat) (h : initLength start ≤ offset) :
    epochWord start offset = sequenceWord ((offset - initLength start) % 65536) false false :=
  if_neg (Nat.not_lt.mpr h)

/-- Four initial numbers are enough for the RESET flag to be down at the changeover. -/
theorem sentWord_eq_epochWord (hstart : start + 4 ≤ 65536) (offset : Nat) :
    sentWord true true start offset = epochWord start offset := by
  have hlen := initLength_add start (by omega)
  unfold sentWord
  by_cases hinitial : offset < initLength start
  · rw [if_pos ⟨rfl, by omega⟩, epochWord_initial start offset hinitial, Bool.true_and]
  · have hmarks : marksRegular true true start = false := by
      rw [marksRegular, decide_eq_false (by omega)]
      rfl
    have hcount : regularCount true start offset = offset - initLength start := by
      rw [regularCount, if_pos rfl]
      omega
    rw [if_neg (by omega), epochWord_regular start offset (by omega), hmarks, hcount,
      Bool.false_and]

theorem outputs_eq_epochWords (hstart : start + 4 ≤ 65536) (gen : SequenceGenerator) (st : Stamp)
    (h : GeneratorSent true true start st.offset gen) (evs : List GeneratorEvent) :
    generatedWords gen evs = (stampsFrom st evs).map fun st => epochWord start st.offset := by
  unfold generatedWords
  induction evs generalizing gen st with
  | nil => rfl
  | cons ev evs ih =>
    rw [Mealy.outputs_cons]
    cases ev with
    | packet =>
      obtain ⟨hword, hnext⟩ := sequenceGeneration_sent (by omega) h
      rw [sentWord_eq_epochWord hstart] at hword
      simp only [generatorStep, stampsFrom, map_cons, reduceOption_cons_of_some, hword]
      rw [ih (sequenceGeneration gen).2 { st with offset := st.offset + 1 } hnext]
    | reset =>
      have hnext := sequenceGenerationReset_sent (by omega) h
      simp only [generatorStep, stampsFrom, reduceOption_cons_of_none]
      -- a reset of a generator that has sent nothing changes no stamp
      grind

theorem generatedWords_eq_epochWords (hstart : start + 4 ≤ 65536) (evs : List GeneratorEvent) :
    generatedWords (newSeqGen true true start) evs =
      (stampsFrom ⟨0, none⟩ evs).map fun st => epochWord start st.offset :=
  outputs_eq_epochWords hstart _ ⟨0, none⟩ (newSeqGen_sent (by omega)) evs

/-- A stamp is the next one in its epoch, or the first of a new epoch after one
of at least `n` packets. -/
def Follows (n : Nat) (st st' : Stamp) : Prop :=
  st' = { st with offset := st.offset + 1 } ∨
    (n ≤ st.offset + 1 ∧ st' = ⟨0, some (st.offset + 1)⟩)

/-- The induction carries the last stamp sent, which is what the next one has
to follow. A reset right after another one is excluded by the spacing. -/
theorem stampsFrom_isChain_cons (hn : 0 < n) (last st : Stamp) (hlast : Follows n last st)
    (h : SpacedSince n st.offset evs) : (last :: stampsFrom st evs).IsChain (Follows n) := by
  induction evs generalizing last st with
  | nil => exact List.IsChain.singleton _
  | cons ev evs ih =>
    cases ev with
    | packet =>
      exact List.IsChain.cons_cons hlast (ih st _ (Or.inl rfl) h)
    | reset =>
      rcases h with ⟨hspace, hrest⟩
      simp only [stampsFrom]
      rw [if_neg (by omega)]
      refine ih last ⟨0, some st.offset⟩ (Or.inr ?_) hrest
      -- the epoch that ends here is not empty, so its last packet is `last`
      rcases hlast with hnext | ⟨_, hfirst⟩
      · have hoff : st.offset = last.offset + 1 := by rw [hnext]
        rw [← hoff]
        exact ⟨hspace, rfl⟩
      · rw [hfirst] at hspace
        exact absurd hspace (by simp only [Nat.not_le]; exact hn)

theorem spacedSince_of_resetsSpaced (since : Nat) (h : ResetsSpaced n evs)
    (hfirst : GeneratorEvent.reset ∈ evs → n ≤ since + beforeFirstReset evs) :
    SpacedSince n since evs := by
  induction evs generalizing since with
  | nil => trivial
  | cons ev evs ih =>
    cases ev with
    | packet =>
      refine ih (since + 1) h (fun hmem => ?_)
      have hle := hfirst (mem_cons_of_mem _ hmem)
      simp only [beforeFirstReset, takeWhile_cons, decide_true, if_true,
        length_cons] at hle ⊢
      omega
    | reset =>
      have hle := hfirst mem_cons_self
      exact ⟨by simpa [beforeFirstReset] using hle, h⟩

/-- The stamps of a schedule: the first opens the first epoch, and each of the
others follows the one before. -/
theorem stampsFrom_isChain (hn : 0 < n) (h : ResetsSpaced n evs)
    (hfirst : GeneratorEvent.reset ∈ evs → beforeFirstReset evs = 0 ∨ n ≤ beforeFirstReset evs) :
    (stampsFrom ⟨0, none⟩ evs).IsChain (Follows n) ∧
      ∀ st ∈ (stampsFrom ⟨0, none⟩ evs).head?, st = ⟨0, none⟩ := by
  -- a schedule that begins with a packet, spaced from there on
  have hpacket : ∀ evs, SpacedSince n 1 evs →
      (stampsFrom ⟨0, none⟩ (.packet :: evs)).IsChain (Follows n) ∧
        ∀ st ∈ (stampsFrom ⟨0, none⟩ (.packet :: evs)).head?, st = ⟨0, none⟩ := by
    intro evs hsp
    refine ⟨stampsFrom_isChain_cons hn ⟨0, none⟩ ⟨1, none⟩ (Or.inl rfl) hsp, ?_⟩
    intro st hst
    simp only [stampsFrom, head?_cons, Option.mem_def, Option.some.injEq] at hst
    exact hst.symm
  rcases evs with _ | ⟨ev, evs⟩
  · exact ⟨List.IsChain.nil, by simp [stampsFrom]⟩
  cases ev with
  | packet =>
    refine hpacket evs (spacedSince_of_resetsSpaced 1 h (fun hmem => ?_))
    have hcases := hfirst (mem_cons_of_mem _ hmem)
    simp only [beforeFirstReset, takeWhile_cons, decide_true, if_true,
      length_cons] at hcases ⊢
    omega
  | reset =>
    -- the reset finds no packet to end an epoch with
    have hskip : stampsFrom ⟨0, none⟩ (.reset :: evs) = stampsFrom ⟨0, none⟩ evs := by
      simp only [stampsFrom, if_true]
    rw [hskip]
    rcases evs with _ | ⟨ev, evs⟩
    · exact ⟨List.IsChain.nil, by simp [stampsFrom]⟩
    cases ev with
    | packet => exact hpacket evs h
    | reset => exact absurd h.1 (by omega)

theorem follows_of_isChain {sts : List Stamp} (h : sts.IsChain (Follows n)) {j : Nat} {st' : Stamp}
    (hget : sts[j + 1]? = some st') : ∃ st, sts[j]? = some st ∧ Follows n st st' := by
  rcases List.getElem?_eq_some_iff.mp hget with ⟨hlt, heq⟩
  refine ⟨sts[j], List.getElem?_eq_getElem (by omega), ?_⟩
  rw [← heq]
  exact isChain_iff_getElem.mp h j hlt

/-- Looking back from a packet: first the earlier packets of its own epoch,
then, for at least `n` more, the last packets of the epoch before. -/
theorem stamp_back {sts : List Stamp} (h : sts.IsChain (Follows n)) {k : Nat} {st : Stamp}
    (hget : sts[k]? = some st) {i : Nat} (hi : i ≤ k) :
    (i ≤ st.offset → sts[k - i]? = some ⟨st.offset - i, st.prev⟩) ∧
      (st.offset < i → i ≤ st.offset + n →
        ∃ L p, st.prev = some L ∧ n ≤ L ∧ sts[k - i]? = some ⟨L + st.offset - i, p⟩) := by
  induction i with
  | zero => exact ⟨fun _ => hget, fun hlt => absurd hlt (Nat.not_lt_zero _)⟩
  | succ i ih =>
    rcases ih (by omega) with ⟨hsame, hback⟩
    have hidx : k - i = k - (i + 1) + 1 := by omega
    rcases Nat.lt_trichotomy i st.offset with hlt | heq | hgt
    · -- still inside the epoch
      have hcur := hsame (Nat.le_of_lt hlt)
      rw [hidx] at hcur
      rcases follows_of_isChain h hcur with ⟨p, hp, hnext | ⟨_, hfirst⟩⟩
      · refine ⟨fun _ => ?_, fun hgt => by omega⟩
        simp only [Stamp.mk.injEq] at hnext
        rw [hp, show st.offset - (i + 1) = p.offset by omega, hnext.2]
      · simp only [Stamp.mk.injEq] at hfirst
        omega
    · -- the first packet of the epoch: one further back lies the epoch before
      have hcur := hsame (Nat.le_of_eq heq)
      rw [hidx] at hcur
      rcases follows_of_isChain h hcur with ⟨p, hp, hnext | ⟨hle, hfirst⟩⟩
      · simp only [Stamp.mk.injEq] at hnext
        omega
      · simp only [Stamp.mk.injEq] at hfirst
        refine ⟨fun hle => by omega, fun _ _ => ⟨p.offset + 1, p.prev, hfirst.2, hle, ?_⟩⟩
        rw [hp, show p.offset + 1 + st.offset - (i + 1) = p.offset by omega]
    · -- inside the epoch before, which is long enough
      refine ⟨fun hle => by omega, fun _ hle => ?_⟩
      rcases hback hgt (by omega) with ⟨L, p, hprev, hL, hcur⟩
      rw [hidx] at hcur
      rcases follows_of_isChain h hcur with ⟨q, hq, hnext | ⟨_, hfirst⟩⟩
      · refine ⟨L, q.prev, hprev, hL, ?_⟩
        simp only [Stamp.mk.injEq] at hnext
        rw [hq, show L + st.offset - (i + 1) = q.offset by omega]
      · simp only [Stamp.mk.injEq] at hfirst
        omega

end Dnt
