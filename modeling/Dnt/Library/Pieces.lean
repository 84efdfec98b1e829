import Mathlib.Algebra.Order.BigOperators.Group.List
import Mathlib.Algebra.Order.Ring.Int

/-!
# Cutting Lists by Weight

A list whose elements have weights is cut into pieces. A piece takes elements as
long as there is room, and does not ask whether the last one still fits. So it is
full, or the list has come to its end, and it may be too heavy by less than one
element.

## Main definitions

* `Pieces.cut`, `Pieces.pieces`: One piece and the rest, and all pieces.
* `Pieces.block`: The elements that begin in one stretch of the whole weight.

## Theorems

* `Pieces.forall_mem_pieces_iff`: The pieces are never too heavy just if they are the
  blocks.
-/

namespace Pieces

variable {α : Type*}

def weight (w : α → Nat) (xs : List α) : Nat :=
  (xs.map w).sum

@[simp] theorem weight_nil (w : α → Nat) : weight w [] = 0 := rfl

@[simp] theorem weight_cons (w : α → Nat) (x : α) (xs : List α) :
    weight w (x :: xs) = w x + weight w xs := by
  rw [weight, List.map_cons, List.sum_cons, weight]

@[simp] theorem weight_append (w : α → Nat) (xs ys : List α) :
    weight w (xs ++ ys) = weight w xs + weight w ys := by
  rw [weight, List.map_append, List.sum_append, weight, weight]

/-- Elements are taken while there is room. -/
def cut (w : α → Nat) : Nat → List α → List α
  | 0, _ => []
  | _ + 1, [] => []
  | room + 1, x :: xs => x :: cut w (room + 1 - w x) xs

def pieces (w : α → Nat) (room : Nat) : Nat → List α → List (List α)
  | 0, _ => []
  | n + 1, xs => cut w room xs :: pieces w room n (xs.drop (cut w room xs).length)

/-- The elements that begin in the `k`-th stretch of length `room`, where `used` is the weight
in front of the list. -/
def block (w : α → Nat) (room k : Nat) : Nat → List α → List α
  | _, [] => []
  | used, x :: xs =>
    if used / room = k then x :: block w room k (used + w x) xs
    else block w room k (used + w x) xs

variable (w : α → Nat)

@[simp] theorem cut_nil (room : Nat) : cut w room [] = [] := by
  cases room with
  | zero | succ room => rfl

@[simp] theorem cut_zero (xs : List α) : cut w 0 xs = [] := by
  rw [cut]

variable {xs : List α} {bound k room used : Nat}

theorem cut_begins (room : Nat) (xs : List α) : cut w room xs <+: xs := by
  induction xs generalizing room with
  | nil => simp only [cut_nil, List.prefix_rfl]
  | cons x xs ih =>
    cases room with
    | zero => exact List.nil_prefix
    | succ room => exact List.cons_prefix_cons.mpr ⟨rfl, ih _⟩

theorem cut_append_drop (room : Nat) (xs : List α) :
    cut w room xs ++ xs.drop (cut w room xs).length = xs :=
  List.prefix_iff_eq_append.mp (cut_begins w room xs)

theorem cut_full (room : Nat) (xs : List α) :
    room ≤ weight w (cut w room xs) ∨ cut w room xs = xs := by
  induction xs generalizing room with
  | nil => exact .inr (cut_nil w room)
  | cons x xs ih =>
    cases room with
    | zero => exact .inl (Nat.zero_le _)
    | succ room =>
      rw [cut, weight_cons]
      obtain hfull | hall := ih (room + 1 - w x)
      · left
        omega
      · right
        rw [hall]

theorem weight_cut_le (hw : ∀ a, w a ≤ bound + 1) (room : Nat) (xs : List α) :
    weight w (cut w room xs) ≤ room + bound := by
  induction xs generalizing room with
  | nil => simp
  | cons x xs ih =>
    cases room with
    | zero => exact Nat.zero_le _
    | succ room =>
      rw [cut, weight_cons]
      have hrest := ih (room + 1 - w x)
      have hx := hw x
      by_cases hle : w x ≤ room + 1
      · omega
      · have hzero : room + 1 - w x = 0 := by omega
        rw [hzero]
        simp only [cut, weight_nil]
        omega

theorem flatten_pieces (room n : Nat) (xs : List α) (h : weight w xs ≤ n * room)
    (hw : ∀ a, 0 < w a) : (pieces w room n xs).flatten = xs := by
  induction n generalizing xs with
  | zero =>
    cases xs with
    | nil => rfl
    | cons x xs =>
      have := hw x
      rw [weight_cons] at h
      omega
  | succ n ih =>
    have hsplit := cut_append_drop w room xs
    have hweight : weight w (cut w room xs) + weight w (xs.drop (cut w room xs).length) =
        weight w xs := by rw [← weight_append, hsplit]
    rw [pieces, List.flatten_cons]
    obtain hfull | hall := cut_full w room xs
    · rw [ih _ (by rw [Nat.succ_mul] at h; omega), hsplit]
    · -- nothing is left for the other pieces
      have hzero : weight w (xs.drop (cut w room xs).length) ≤ n * room := by
        rw [hall] at hweight ⊢
        omega
      rw [ih _ hzero, hsplit]

theorem weight_pieces_le (hw : ∀ a, w a ≤ bound + 1) (room n : Nat) (xs : List α) :
    weight w (pieces w room n xs).flatten ≤ n * (room + bound) := by
  induction n generalizing xs with
  | zero => exact Nat.zero_le _
  | succ n ih =>
    rw [pieces, List.flatten_cons, weight_append, Nat.succ_mul]
    have hcut := weight_cut_le w hw room xs
    have hrest := ih (xs.drop (cut w room xs).length)
    omega

theorem block_of_le (hroom : 0 < room) (h : (k + 1) * room ≤ used) (xs : List α) :
    block w room k used xs = [] := by
  induction xs generalizing used with
  | nil => rfl
  | cons x xs ih =>
    have hdiv : k + 1 ≤ used / room := (Nat.le_div_iff_mul_le hroom).mpr h
    rw [block, if_neg (by omega), ih (by omega)]

theorem div_eq_of_room {left : Nat} (hroom : 0 < room) (hused : k * room ≤ used)
    (hleft : (k + 1) * room - used = left + 1) : used / room = k := by
  have hlt : used < (k + 1) * room := by omega
  refine Nat.le_antisymm (Nat.lt_succ_iff.mp ((Nat.div_lt_iff_lt_mul hroom).mpr hlt)) ?_
  exact (Nat.le_div_iff_mul_le hroom).mpr hused

/-- A block is what is cut off where it begins. -/
theorem block_eq_cut (hroom : 0 < room) (hused : k * room ≤ used) (xs : List α) :
    block w room k used xs = cut w ((k + 1) * room - used) xs := by
  induction xs generalizing used with
  | nil => rw [block, cut_nil]
  | cons x xs ih =>
    cases hleft : (k + 1) * room - used with
    | zero => rw [block_of_le w hroom (by omega), cut_zero]
    | succ left =>
      rw [block, if_pos (div_eq_of_room hroom hused hleft), cut, ih (by omega), ← hleft,
        Nat.sub_sub]

/-- For the blocks behind it, what is cut off is only weight. -/
theorem block_drop_cut {j : Nat} (hroom : 0 < room) (hused : k * room ≤ used) (hj : k < j)
    (xs : List α) : block w room j used xs =
      block w room j (used + weight w (cut w ((k + 1) * room - used) xs))
        (xs.drop (cut w ((k + 1) * room - used) xs).length) := by
  induction xs generalizing used with
  | nil => rw [cut_nil]; rfl
  | cons x xs ih =>
    cases hleft : (k + 1) * room - used with
    | zero => rw [cut_zero]; rfl
    | succ left =>
      have hdiv := div_eq_of_room hroom hused hleft
      rw [block, if_neg (by omega), cut, weight_cons, List.length_cons, List.drop_succ_cons,
        ih (by omega), ← hleft, ← Nat.sub_sub, Nat.add_assoc]

theorem cut_ne_nil (hroom : 0 < room) (h : 0 < weight w xs) : cut w room xs ≠ [] := by
  cases xs with
  | nil => exact absurd h (Nat.lt_irrefl 0)
  | cons x xs =>
    obtain ⟨room', rfl⟩ := Nat.exists_eq_succ_of_ne_zero (Nat.ne_of_gt hroom)
    exact List.cons_ne_nil _ _

/-- If a property of pieces rules out that one is too heavy, it can be asked of the blocks, as
long as there are not more pieces than the list has weight for. Then none is empty. -/
theorem forall_mem_pieces_iff (hroom : 0 < room) {P : List α → Prop}
    (hP : ∀ xs, P xs → weight w xs ≤ room) {n : Nat} (hn : n * room < weight w xs + room) :
    (∀ p ∈ pieces w room n xs, P p ∧ p ≠ []) ↔ ∀ j < n, P (block w room (k + j) (k * room) xs) := by
  induction n generalizing k xs with
  | zero => simp [pieces]
  | succ n ih =>
    have hcut : (k + 1) * room - k * room = room := by rw [Nat.succ_mul]; omega
    have hfirst : block w room (k + 0) (k * room) xs = cut w room xs := by
      rw [Nat.add_zero, block_eq_cut w hroom (Nat.le_refl _), hcut]
    rw [Nat.succ_mul] at hn
    rw [pieces, List.forall_mem_cons, Nat.forall_lt_succ_left, hfirst,
      and_iff_left (cut_ne_nil w hroom (by omega))]
    refine and_congr_right fun hfits => ?_
    have hlight := hP _ hfits
    have hsplit : weight w (cut w room xs) + weight w (xs.drop (cut w room xs).length) =
        weight w xs := by rw [← weight_append, cut_append_drop]
    have hrest (j : Nat) : block w room (k + (j + 1)) (k * room) xs =
        block w room (k + 1 + j) (k * room + weight w (cut w room xs))
          (xs.drop (cut w room xs).length) := by
      have hdrop := block_drop_cut w hroom (Nat.le_refl (k * room)) (j := k + 1 + j) (by omega) xs
      rw [hcut] at hdrop
      rw [← hdrop, Nat.add_assoc, Nat.add_comm 1 j]
    obtain hfull | hall := cut_full w room xs
    · have hexact : weight w (cut w room xs) = room := Nat.le_antisymm hlight hfull
      simp only [hrest, hexact, ← Nat.succ_mul]
      exact ih (by omega)
    · -- the list has come to its end, so there are no more pieces
      obtain rfl : n = 0 := by
        rw [hall] at hlight
        by_contra hne
        have : room ≤ n * room := Nat.le_mul_of_pos_left room (Nat.pos_of_ne_zero hne)
        omega
      simp [pieces]

end Pieces
