import Mathlib.Data.Int.ModEq
import Mathlib.Tactic.Ring

/-!
# Sliding Windows of Bits

A set of integers seen through a window, a list of cells below a moving top. Raising
the top slides the cells. A receiver may only have a residue of the top.

## Main definitions

* `Window.Shows`: Cell `i` says whether `top - i` belongs to the set.
* `Window.advance`: Raising the top, and marking the new one.
* `Window.unwrap`: The integer with a given residue that is closest to a reference point.

## Theorems

* `Window.shows_advance`, `Window.shows_mark`: The set after the top was raised, and after
  a cell was marked.
* `Window.unwrap_spec`, `Window.unwrap_unique`: Reading a residue is right, and the only way.
-/

namespace Window

/-- One cell enters at the top, the oldest cell leaves. -/
def slide (cells : List Bool) (b : Bool) : List Bool :=
  b :: cells.dropLast

/-- Slide empty cells in, `n` times. -/
def slideZeros : Nat → List Bool → List Bool
  | 0, cells => cells
  | n + 1, cells => slideZeros n (slide cells false)

/-- Raise the top by `n`, marking the new top. -/
def advance (cells : List Bool) (n : Nat) : List Bool :=
  slide (slideZeros (n - 1) cells) true

open List

variable (cells : List Bool) (b : Bool) (n : Nat) (top : Int) (S : Set Int)

theorem length_slide (h : cells ≠ []) :
    (slide cells b).length = cells.length := by
  have hpos : 0 < cells.length := length_pos_iff.mpr h
  simp only [slide, length_cons, length_dropLast]
  omega

theorem slide_ne_nil : slide cells b ≠ [] :=
  cons_ne_nil _ _

@[simp] theorem getD_slide_zero :
    (slide cells b).getD 0 false = b := rfl

theorem getD_slide_succ (i : Nat) (h : i + 1 < cells.length) :
    (slide cells b).getD (i + 1) false = cells.getD i false := by
  simp only [slide, getD_eq_getElem?_getD, getElem?_cons_succ]
  rw [getElem?_dropLast, if_pos (by omega)]

theorem length_slideZeros (cells : List Bool) (h : cells ≠ []) :
    (slideZeros n cells).length = cells.length := by
  induction n generalizing cells with
  | zero => rfl
  | succ n ih =>
    rw [slideZeros, ih _ (slide_ne_nil cells false), length_slide cells false h]

theorem getD_slideZeros (cells : List Bool) (i : Nat) (h : i < cells.length) :
    (slideZeros n cells).getD i false = if i < n then false else cells.getD (i - n) false := by
  have hne : cells ≠ [] := length_pos_iff.mp (by omega)
  induction n generalizing cells with
  | zero => simp only [slideZeros, Nat.not_lt_zero, if_false, Nat.sub_zero]
  | succ n ih =>
    have hlen : (slide cells false).length = cells.length := length_slide cells false hne
    rw [slideZeros, ih _ (by omega) (slide_ne_nil cells false)]
    -- the cell that has just entered ends up at `n`
    rcases Nat.lt_trichotomy i n with hlt | rfl | hgt
    · rw [if_pos hlt, if_pos (by omega)]
    · rw [if_neg (by omega), if_pos (by omega), Nat.sub_self, getD_slide_zero]
    · rw [if_neg (by omega), if_neg (by omega), show i - n = i - (n + 1) + 1 by omega,
        getD_slide_succ cells false _ (by omega)]

theorem length_advance (h : cells ≠ []) :
    (advance cells n).length = cells.length := by
  have hlen := length_slideZeros (n - 1) cells h
  have hne : slideZeros (n - 1) cells ≠ [] := by
    rw [← length_pos_iff, hlen]
    exact length_pos_iff.mpr h
  rw [advance, length_slide _ _ hne, hlen]

/-- After raising the top by `n`, the top is marked, the `n - 1` numbers
skipped are not, and older cells have moved down. -/
theorem getD_advance {n i : Nat} (hn : 0 < n) (h : i < cells.length) :
    (advance cells n).getD i false =
      if i = 0 then true else if i < n then false else cells.getD (i - n) false := by
  have hne : cells ≠ [] := length_pos_iff.mp (by omega)
  cases i with
  | zero => rfl
  | succ i =>
    have hlen := length_slideZeros (n - 1) cells hne
    rw [if_neg (by omega), advance, getD_slide_succ _ _ _ (by omega),
      getD_slideZeros _ _ _ (by omega)]
    grind

/-- One step: every cell but the first is the one before it, moved. -/
theorem getD_advance_one (i : Nat) (h : i < cells.length) :
    (advance cells 1).getD i false = if i = 0 then true else cells.getD (i - 1) false := by
  rw [getD_advance cells Nat.one_pos h]
  grind

theorem getD_set (i j : Nat) (h : i < cells.length) :
    (cells.set i true).getD j false = if j = i then true else cells.getD j false := by
  rw [getD_eq_getElem?_getD, getD_eq_getElem?_getD, getElem?_set]
  grind

theorem getD_replicate_false (n i : Nat) : (List.replicate n false).getD i false = false := by
  rw [getD_eq_getElem?_getD, getElem?_replicate]
  split <;> rfl

/-- The cells are the set `S` as seen from `top`. -/
def Shows (cells : List Bool) (top : Int) (S : Set Int) : Prop :=
  ∀ i < cells.length, cells.getD i false = true ↔ top - i ∈ S

theorem shows_slide_false (hne : cells ≠ [])
    (hS : ∀ x ∈ S, x ≤ top) (h : Shows cells top S) : Shows (slide cells false) (top + 1) S := by
  intro i hi
  rw [length_slide cells false hne] at hi
  cases i with
  | zero =>
    rw [getD_slide_zero, Nat.cast_zero, sub_zero]
    refine iff_of_false Bool.false_ne_true fun hmem => ?_
    have := hS _ hmem
    omega
  | succ i =>
    rw [getD_slide_succ cells false i hi, h i (by omega),
      show top + 1 - ((i + 1 : Nat) : Int) = top - i by omega]

theorem shows_advance (n : Nat) (hn : 0 < n)
    (hne : cells ≠ []) (hS : ∀ x ∈ S, x ≤ top) (h : Shows cells top S) :
    Shows (advance cells n) (top + n) (insert (top + n) S) := by
  intro i hi
  rw [length_advance cells n hne] at hi
  rw [getD_advance cells hn hi, Set.mem_insert_iff]
  by_cases hzero : i = 0
  · simp [hzero, sub_zero]
  rw [if_neg hzero]
  have htop : top + n - (i : Int) ≠ top + n := by omega
  by_cases hlt : i < n
  · -- a skipped number lies above the old top, so it is not in the set
    have hnot : top + n - (i : Int) ∉ S := fun hmem => by
      have := hS _ hmem
      omega
    simp only [hlt, if_true, Bool.false_eq_true, htop, hnot, or_self]
  · have hold := h (i - n) (by omega)
    rw [show top - ((i - n : Nat) : Int) = top + n - i by omega] at hold
    simp only [hlt, if_false, hold, htop, false_or]

theorem shows_mark (i : Nat)
    (hi : i < cells.length) (h : Shows cells top S) :
    Shows (cells.set i true) top (insert (top - i) S) := by
  intro j hj
  rw [length_set] at hj
  rw [getD_set cells i j hi, Set.mem_insert_iff]
  by_cases hji : j = i
  · simp [hji]
  · have hne : top - (j : Int) ≠ top - i := by omega
    simp only [hji, if_false, hne, false_or]
    exact h j hj

theorem shows_fresh : Shows (List.replicate n false) top ∅ := by
  intro i _
  rw [getD_replicate_false]
  simp

/-- The integer congruent to `x` modulo `2 * half` in the range
`[top - half, top + half)`. -/
def unwrap (half top x : Int) : Int :=
  top - half + (x - (top - half)) % (2 * half)

theorem unwrap_spec (half top x : Int) (hhalf : 0 < half) : unwrap half top x ≡ x [ZMOD 2 * half] ∧
      top - half ≤ unwrap half top x ∧ unwrap half top x < top + half := by
  have hpos : 0 < 2 * half := by omega
  have hnonneg := Int.emod_nonneg (x - (top - half)) (by omega : 2 * half ≠ 0)
  have hlt := Int.emod_lt_of_pos (x - (top - half)) hpos
  refine ⟨?_, ?_, ?_⟩
  · have hmod : (x - (top - half)) % (2 * half) ≡ x - (top - half) [ZMOD 2 * half] :=
      Int.mod_modEq _ _
    have hadd := hmod.add_left (top - half)
    rwa [show top - half + (x - (top - half)) = x by ring] at hadd
  · rw [unwrap]
    omega
  · rw [unwrap]
    omega

theorem unwrap_unique {half top x u : Int} (hhalf : 0 < half) (hmod : u ≡ x [ZMOD 2 * half])
    (hlow : top - half ≤ u) (hhigh : u < top + half) : u = unwrap half top x := by
  obtain ⟨hmod', hlow', hhigh'⟩ := unwrap_spec half top x hhalf
  -- both are in a range that is one period long
  have hdvd : 2 * half ∣ unwrap half top x - u := (hmod.trans hmod'.symm).dvd
  have hzero : unwrap half top x - u = 0 :=
    Int.eq_zero_of_abs_lt_dvd hdvd (abs_lt.mpr ⟨by omega, by omega⟩)
  omega

end Window
