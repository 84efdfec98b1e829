import Dnt.Core.Packet

/-!
# Headers One Behind the Other

`packet_is_linear` is asked before a packet is treated as one text. Its loop
begins with the second header, so where that one starts is never compared, and
its bound is `header_count - 1` in unsigned arithmetic, so for a packet without
headers it reads entries that are not there.

## Main definitions

* `Adjacent`: A header starts where the one before it ends.
* `LinearRight`: The answer is right, and only entries of the packet are read.

## Theorems

* `linearRight_iff`: This is so just for packets with a header whose first two are adjacent, or
  where a later pair is not.
-/

namespace Dnt

open List

variable {p : Packet}

/-- Header `i + 1` starts where header `i` ends. -/
def Adjacent (p : Packet) (i : Nat) : Prop :=
  headerStart p (i + 1) = u32 (headerStart p i + headerLen p i)

instance (p : Packet) (i : Nat) : Decidable (Adjacent p i) :=
  inferInstanceAs (Decidable (_ = _))

theorem linearLoop_answer (p : Packet) (is : List Nat) : (linearLoop p is).2 = is.all fun i =>
      headerStart p (i + 1) == u32 (headerStart p i + headerLen p i) := by
  induction is with
  | nil => rfl
  | cons i is ih =>
    rw [linearLoop, all_cons, ← ih]
    grind

theorem packetIsLinearReads_answer (p : Packet) : (packetIsLinearReads p).2 = packetIsLinear p :=
  linearLoop_answer p _

theorem mem_linearLoop {is : List Nat} {k : Nat} (h : k ∈ (linearLoop p is).1) :
    ∃ i ∈ is, k = i + 1 ∨ k = i := by
  induction is with
  | nil => nomatch h
  | cons i is ih =>
    rw [linearLoop] at h
    split at h
    · exact ⟨i, mem_cons_self, by simpa using h⟩
    · rcases mem_cons.mp h with rfl | h
      · exact ⟨i, mem_cons_self, .inl rfl⟩
      · rcases mem_cons.mp h with rfl | h
        · exact ⟨k, mem_cons_self, .inr rfl⟩
        · obtain ⟨j, hj, hk⟩ := ih h
          exact ⟨j, mem_cons_of_mem i hj, hk⟩

/-- What the users of `packet_is_linear` rely on: the answer is that of the
whole packet, and only entries the packet has are read. -/
structure LinearRight (p : Packet) : Prop where
  answer : (packetIsLinearReads p).2 = true ↔ ∀ i, i + 1 < p.headers.length → Adjacent p i
  reads : ∀ i ∈ (packetIsLinearReads p).1, i < p.headers.length

/-- The first comparison of a packet without headers is with entry 2. -/
theorem reads_of_no_headers (h : p.headers = []) : 2 ∈ (packetIsLinearReads p).1 := by
  have hlast : lastHeaderIdx p - 1 = 4294967293 + 1 := by
    unfold lastHeaderIdx
    rw [h]
    rfl
  rw [packetIsLinearReads, hlast, range'_succ, linearLoop]
  split <;> exact mem_cons_self

theorem reads_lt (hne : p.headers ≠ []) {i : Nat} (h : i ∈ (packetIsLinearReads p).1) :
    i < p.headers.length := by
  obtain ⟨j, hj, hi⟩ := mem_linearLoop h
  rw [lastHeaderIdx_of_ne_nil hne, mem_range'_1] at hj
  omega

/-- The answer is right for the packets that have a header, and whose first two
are adjacent or a later pair gives the right answer away. -/
theorem linearRight_iff (p : Packet) :
    LinearRight p ↔ p.headers ≠ [] ∧ (2 ≤ p.headers.length →
      Adjacent p 0 ∨ ∃ i, 1 ≤ i ∧ i + 1 < p.headers.length ∧ ¬ Adjacent p i) := by
  constructor
  · intro h
    have hne : p.headers ≠ [] := by
      intro hnil
      have := h.reads 2 (reads_of_no_headers hnil)
      simp [hnil] at this
    refine ⟨hne, fun htwo => ?_⟩
    have hanswer := h.answer
    rw [packetIsLinearReads_answer, packetIsLinear_iff hne] at hanswer
    by_cases hlater : ∀ i, 1 ≤ i → i + 1 < p.headers.length → Adjacent p i
    · exact .inl (hanswer.mp hlater 0 htwo)
    · simp only [not_forall] at hlater
      obtain ⟨i, hi, hlt, hnot⟩ := hlater
      exact .inr ⟨i, hi, hlt, hnot⟩
  · rintro ⟨hne, hfirst⟩
    refine ⟨?_, fun i hi => reads_lt hne hi⟩
    rw [packetIsLinearReads_answer, packetIsLinear_iff hne]
    constructor
    · intro h i hlt
      cases i with
      | zero =>
        rcases hfirst hlt with hadj | ⟨j, hj, hjlt, hnot⟩
        · exact hadj
        · exact absurd (h j hj hjlt) hnot
      | succ i => exact h (i + 1) (Nat.le_add_left 1 i) hlt
    · intro h i _ hlt
      exact h i hlt

/-- Two headers with a gap between them: the answer is that they are linear. -/
theorem gap_behind_first_header :
    let p := { newPacket (fun _ => 0) with headers := [⟨.eth, 64, 14⟩, ⟨.payload, 128, 50⟩] }
    (packetIsLinearReads p).2 = true ∧ ¬ Adjacent p 0 ∧ ¬ LinearRight p := by
  intro p
  refine ⟨rfl, by decide, fun h => ?_⟩
  exact absurd (h.answer.mp rfl 0 (by decide)) (by decide)

end Dnt
