import Mathlib.Order.Bounds.Basic
import Mathlib.Data.Finset.Card

/-!
# Runs of Consecutive Integers

The stretches of consecutive members of a finite set of integers. A set that only ever
grows at its upper end can be watched by two counters, one for the stretch that ends at
the last number looked at, and one for the longest stretch since it was cleared.

## Main definitions

* `Runs.lengths`: The lengths of stretches that end above a number.
* `Runs.EndsAt`: The length of the stretch that ends at a number.

## Theorems

* `Runs.lengths_insert`: The lengths after a new last member.
* `Runs.isGreatest_union`: The greatest length, when all lengths up to one are added.
-/

namespace Runs

variable (S : Finset Int) (low : Int)

/-- The integers above `low` and up to `high`. -/
def above (high : Int) : Finset Int :=
  (Finset.range (high - low).toNat).image fun k : Nat => low + 1 + (k : Int)

theorem mem_above (high x : Int) : x ∈ above low high ↔ low < x ∧ x ≤ high := by
  rw [above, Finset.mem_image]
  constructor
  · rintro ⟨k, hk, rfl⟩
    rw [Finset.mem_range] at hk
    omega
  · rintro ⟨hlow, hhigh⟩
    refine ⟨(x - low - 1).toNat, ?_, by omega⟩
    rw [Finset.mem_range]
    omega

/-- Just `n` consecutive members end at `u`, none if `u` is not a member. -/
structure EndsAt (S : Finset Int) (u n : Int) : Prop where
  nonneg : 0 ≤ n
  members : ∀ v, u - n < v → v ≤ u → v ∈ S
  gap : u - n ∉ S

/-- There are `n` consecutive members, and the last one is above `low`. -/
def lengths : Set Int :=
  {n | 0 < n ∧ ∃ u, low < u ∧ ∀ v, u - n < v → v ≤ u → v ∈ S}

theorem endsAt_zero (u : Int) (hu : u ∉ S) : EndsAt S u 0 where
  nonneg := le_refl 0
  members v hlow hhigh := by omega
  gap := by rwa [Int.sub_zero]

theorem endsAt_insert {u n : Int} (h : EndsAt S u n) :
    EndsAt (insert (u + 1) S) (u + 1) (n + 1) := by
  have hn := h.nonneg
  refine ⟨by omega, ?_, ?_⟩
  · intro v hlow hhigh
    by_cases hv : v = u + 1
    · rw [hv]
      exact Finset.mem_insert_self _ _
    · exact Finset.mem_insert_of_mem (h.members v (by omega) (by omega))
  · rw [show u + 1 - (n + 1) = u - n by omega, Finset.mem_insert]
    rintro (heq | hmem)
    · omega
    · exact h.gap hmem

theorem lengths_eq_empty (h : ∀ x ∈ S, x ≤ low) : lengths S low = ∅ := by
  rw [Set.eq_empty_iff_forall_notMem]
  rintro n ⟨hn, u, hu, hmembers⟩
  have hle := h u (hmembers u (by omega) (le_refl u))
  omega

theorem lengths_insert {u n : Int} (hlow : low ≤ u) (hS : ∀ x ∈ S, x ≤ u) (h : EndsAt S u n) :
    lengths (insert (u + 1) S) low = lengths S low ∪ {k | 0 < k ∧ k ≤ n + 1} := by
  have hnew := endsAt_insert S h
  have hn := h.nonneg
  ext k
  constructor
  · rintro ⟨hk, v, hv, hmembers⟩
    by_cases hvu : v = u + 1
    · -- the stretch ends at the new member, so it cannot pass the gap at `u - n`
      right
      refine ⟨hk, ?_⟩
      by_contra hlong
      rcases Finset.mem_insert.mp (hmembers (u - n) (by omega) (by omega)) with heq | hmem
      · omega
      · exact h.gap hmem
    · left
      have hmem := Finset.mem_of_mem_insert_of_ne (hmembers v (by omega) (le_refl v)) hvu
      have hvle := hS v hmem
      refine ⟨hk, v, hv, fun x hlow hhigh => ?_⟩
      exact Finset.mem_of_mem_insert_of_ne (hmembers x hlow hhigh) (by omega)
  · rintro (⟨hk, v, hv, hmembers⟩ | ⟨hk, hkn⟩)
    · exact ⟨hk, v, hv, fun x hlow hhigh => Finset.mem_insert_of_mem (hmembers x hlow hhigh)⟩
    · exact ⟨hk, u + 1, by omega, fun x hlow hhigh => hnew.members x (by omega) hhigh⟩

theorem isGreatest_union (P : Set Int) (m n : Int) (hn : 0 < n) (h : IsGreatest P m) :
    IsGreatest (P ∪ {k | 0 < k ∧ k ≤ n}) (if n > m then n else m) := by
  obtain ⟨hmem, hupper⟩ := h
  split_ifs with hlt
  · refine ⟨Or.inr ⟨hn, le_refl n⟩, ?_⟩
    rintro k (hk | hk)
    · have := hupper hk
      omega
    · exact hk.2
  · refine ⟨Or.inl hmem, ?_⟩
    rintro k (hk | hk)
    · exact hupper hk
    · have := hk.2
      omega

end Runs
