import Mathlib.Algebra.Order.Ring.Int
import Mathlib.Data.List.Basic

/-!
# Cells of an Array

An array in memory, accessed by signed indices one cell at a time. An access outside of
the array is an error, which tells the index.

## Main definitions

* `Cells.read`, `Cells.write`: Accesses to one cell.
* `Cells.shiftUp`, `Cells.fill`: Loops over the cells of an array.

## Theorems

* `Cells.shiftUp_cons`: A loop that stays inside shifts the array as a list is shifted.
-/

namespace Cells

variable {α : Type*}

def read (cells : List α) (i : Int) : Except Int α :=
  if 0 ≤ i then
    match cells[i.toNat]? with
    | some a => .ok a
    | none => .error i
  else .error i

def write (cells : List α) (i : Int) (a : α) : Except Int (List α) :=
  if 0 ≤ i ∧ i < cells.length then .ok (cells.set i.toNat a) else .error i

/-- The first `count` cells get a value. The error is the first index outside. -/
def fill (cells : List α) (count : Nat) (a : α) : Except Int (List α) :=
  if count ≤ cells.length then .ok (List.replicate count a ++ cells.drop count)
  else .error cells.length

/-- For `i` from `n` down to one, cell `i - 1` is copied to cell `i`. -/
def shiftUp : Nat → List α → Except Int (List α)
  | 0, cells => .ok cells
  | n + 1, cells => do
    let a ← read cells n
    let cells ← write cells (n + 1) a
    shiftUp n cells

open List

theorem read_of_lt (cells : List α) (i : Nat) (h : i < cells.length) :
    read cells i = .ok cells[i] := by
  unfold read
  rw [if_pos (Int.natCast_nonneg i), Int.toNat_natCast, getElem?_eq_getElem h]

theorem write_of_lt (cells : List α) (i : Nat) (a : α) (h : i < cells.length) :
    write cells i a = .ok (cells.set i a) := by
  unfold write
  rw [if_pos ⟨Int.natCast_nonneg i, Int.ofNat_lt.mpr h⟩, Int.toNat_natCast]

/-- The loop from `n` down. The cells above stay, and the first one is there twice. -/
theorem shiftUp_of_le (n : Nat) (a : α) (cells : List α) (h : n ≤ cells.length) :
    shiftUp n (a :: cells) = .ok (a :: ((a :: cells).take n ++ cells.drop n)) := by
  induction n generalizing cells with
  | zero => rfl
  | succ n ih =>
    have hn : n < (a :: cells).length := Nat.lt_succ_of_lt h
    have hread := read_of_lt (a :: cells) n hn
    have hwrite : write (a :: cells) (n + 1) (a :: cells)[n] =
        .ok (a :: cells.set n (a :: cells)[n]) :=
      write_of_lt (a :: cells) (n + 1) (a :: cells)[n] (Nat.succ_lt_succ h)
    have hrest := ih (cells.set n (a :: cells)[n]) (by rw [length_set]; omega)
    simp only [shiftUp, hread, hwrite, hrest, bind, Except.bind]
    -- the cell that was copied is the last of the moved ones
    have htake : (a :: cells.set n (a :: cells)[n]).take n = (a :: cells).take n := by
      rw [← set_cons_succ, take_set_of_le (Nat.le_succ n)]
    have hdrop : (cells.set n (a :: cells)[n]).drop n =
        (a :: cells)[n] :: cells.drop (n + 1) := by
      rw [drop_set, if_neg (Nat.lt_irrefl n), Nat.sub_self, drop_eq_getElem_cons h, set_cons_zero]
    rw [htake, hdrop, take_succ_eq_append_getElem hn, append_assoc, singleton_append]

theorem shiftUp_cons (a : α) (cells : List α) :
    shiftUp cells.length (a :: cells) = .ok (a :: (a :: cells).dropLast) := by
  rw [shiftUp_of_le cells.length a cells (Nat.le_refl _), drop_length, append_nil,
    dropLast_eq_take, length_cons, Nat.add_sub_cancel]

end Cells
