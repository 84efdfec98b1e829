import Mathlib.Algebra.BigOperators.Group.List.Basic
import Mathlib.Data.Nat.ModEq

/-!
# One's Complement Sums with Lost Carries

Numbers are added up in a register, and it overflows. In a one's complement sum the
carry is added back. An addition that does not do so loses it. A sum is right modulo
the limit less one except for the carries it has lost, and how many these are
depends on the order of the numbers.

As long as no carry is lost, the register is determined by how much the numbers are
together. So whether one will be lost can be said by the numbers alone.

## Main definitions

* `OnesComplement.Addend`: A number, and whether its carry is added back.
* `OnesComplement.total`, `OnesComplement.lost`: The register after some additions, and
  the number of carries lost by them.
* `OnesComplement.register`: What a register holds after numbers with some sum.
* `OnesComplement.CarriesKept`: No carry is lost, said without the register.

## Theorems

* `OnesComplement.total_add_lost`: A sum is right modulo the limit less one, but for the
  carries it has lost.
* `OnesComplement.lost_eq_zero_iff`: No carry is lost just if `CarriesKept` holds.
* `OnesComplement.total_eq_register`: The register at the end of such a sum.
* `OnesComplement.lost_le_countP`: Only additions without their carries lose any.
-/

namespace OnesComplement

structure Addend where
  value : Nat
  /-- The carry is added back. -/
  carried : Bool
  deriving DecidableEq, Repr

variable (limit : Nat)

/-- One addition. -/
def add (s : Nat) (a : Addend) : Nat :=
  if s + a.value < limit then s + a.value
  else if a.carried = true then s + a.value - limit + 1
  else s + a.value - limit

/-- The carry that one addition loses. -/
def carryLost (s : Nat) (a : Addend) : Nat :=
  if s + a.value < limit then 0 else if a.carried = true then 0 else 1

/-- The sum that begins with `s`. -/
def total : Nat → List Addend → Nat
  | s, [] => s
  | s, a :: as => total (add limit s a) as

def lost : Nat → List Addend → Nat
  | _, [] => 0
  | s, a :: as => carryLost limit s a + lost (add limit s a) as

/-- How much the numbers are together, in a register that never overflows. -/
def exact (as : List Addend) : Nat :=
  (as.map Addend.value).sum

/-- What a register holds after numbers that are `n` together, if no carry was lost. Of the
two zeros it holds the one with all bits set, unless nothing has been added. -/
def register (n : Nat) : Nat :=
  if n = 0 then 0 else (n - 1) % (limit - 1) + 1

/-- No carry is lost after numbers that are `n` together: every addition either adds its carry
back or has none. -/
def CarriesKept : Nat → List Addend → Prop
  | _, [] => True
  | n, a :: as => (a.carried = true ∨ register limit n + a.value < limit) ∧
    CarriesKept (n + a.value) as

instance CarriesKept.decidable : ∀ n as, Decidable (CarriesKept limit n as)
  | _, [] => inferInstanceAs (Decidable True)
  | n, a :: as =>
    have := CarriesKept.decidable (n + a.value) as
    inferInstanceAs (Decidable (_ ∧ _))

variable {limit : Nat} {as : List Addend}

@[simp] theorem exact_nil : exact [] = 0 := rfl

@[simp] theorem exact_cons (a : Addend) (as : List Addend) :
    exact (a :: as) = a.value + exact as := by
  rw [exact, List.map_cons, List.sum_cons, exact]

@[simp] theorem exact_append (as bs : List Addend) : exact (as ++ bs) = exact as + exact bs := by
  rw [exact, List.map_append, List.sum_append, exact, exact]

variable {m s : Nat}

theorem total_append (s : Nat) (as bs : List Addend) :
    total limit s (as ++ bs) = total limit (total limit s as) bs := by
  induction as generalizing s with
  | nil => rfl
  | cons a as ih => exact ih _

theorem add_lt {a : Addend} (hs : s < limit) (ha : a.value < limit) : add limit s a < limit := by
  unfold add
  split_ifs <;> omega

theorem total_lt (hs : s < limit) (has : ∀ a ∈ as, a.value < limit) : total limit s as < limit := by
  induction as generalizing s with
  | nil => exact hs
  | cons a as ih =>
    obtain ⟨ha, has⟩ := List.forall_mem_cons.mp has
    exact ih (add_lt hs ha) has

theorem add_add_carryLost (hm : limit ≡ 1 [MOD m]) (s : Nat) (a : Addend) :
    add limit s a + carryLost limit s a ≡ s + a.value [MOD m] := by
  unfold add carryLost
  by_cases hlt : s + a.value < limit
  · rw [if_pos hlt, if_pos hlt]
    rfl
  · have hone : s + a.value - limit + 1 ≡ s + a.value - limit + limit [MOD m] :=
      Nat.ModEq.add_left _ hm.symm
    rw [Nat.sub_add_cancel (Nat.not_lt.mp hlt)] at hone
    rw [if_neg hlt, if_neg hlt]
    split_ifs
    · exact hone
    · exact hone

theorem total_add_lost (hm : limit ≡ 1 [MOD m]) (s : Nat) (as : List Addend) :
    total limit s as + lost limit s as ≡ s + exact as [MOD m] := by
  induction as generalizing s with
  | nil => rfl
  | cons a as ih =>
    rw [total, lost, exact_cons]
    calc total limit (add limit s a) as + (carryLost limit s a + lost limit (add limit s a) as)
        = total limit (add limit s a) as + lost limit (add limit s a) as +
            carryLost limit s a := by omega
      _ ≡ add limit s a + exact as + carryLost limit s a [MOD m] := (ih _).add_right _
      _ = add limit s a + carryLost limit s a + exact as := by omega
      _ ≡ s + a.value + exact as [MOD m] := (add_add_carryLost hm s a).add_right _
      _ = s + (a.value + exact as) := Nat.add_assoc _ _ _

theorem total_eq_zero (hlimit : 0 < limit) (hexact : exact as = 0) : total limit 0 as = 0 := by
  induction as with
  | nil => rfl
  | cons a as ih =>
    rw [exact_cons, Nat.add_eq_zero_iff] at hexact
    have hadd : add limit 0 a = 0 := by
      rw [add, hexact.1, if_pos hlimit]
    rw [total, hadd]
    exact ih hexact.2

/-- At most as many carries are lost as there are additions that do not add them back. -/
theorem lost_le_countP (s : Nat) (as : List Addend) :
    lost limit s as ≤ as.countP fun a => !a.carried := by
  induction as generalizing s with
  | nil => exact Nat.le_refl 0
  | cons a as ih =>
    have hrest := ih (add limit s a)
    have hfirst : carryLost limit s a ≤ if (!a.carried) = true then 1 else 0 := by
      unfold carryLost
      cases a.carried <;> simp only [Bool.not_true, Bool.not_false, if_true] <;> split_ifs <;> omega
    rw [lost, List.countP_cons]
    omega

/-! ### Sums without lost carries -/

variable {n : Nat}

theorem register_zero (limit : Nat) : register limit 0 = 0 :=
  if_pos rfl

theorem register_pos (hn : n ≠ 0) : register limit n = (n - 1) % (limit - 1) + 1 :=
  if_neg hn

theorem register_eq_zero_iff (limit n : Nat) : register limit n = 0 ↔ n = 0 := by simp [register]

theorem register_modEq (limit n : Nat) : register limit n ≡ n [MOD limit - 1] := by
  by_cases hn : n = 0
  · rw [hn, register_zero]
  · calc register limit n = (n - 1) % (limit - 1) + 1 := register_pos hn
      _ ≡ n - 1 + 1 [MOD limit - 1] := (Nat.mod_modEq _ _).add_right 1
      _ = n := Nat.sub_add_cancel (Nat.pos_of_ne_zero hn)

/-- Sums that add all carries back. -/
theorem carriesKept_of_carried (n : Nat) (has : ∀ a ∈ as, a.carried = true) :
    CarriesKept limit n as := by
  induction as generalizing n with
  | nil => trivial
  | cons a as ih =>
    obtain ⟨ha, has⟩ := List.forall_mem_cons.mp has
    exact ⟨.inl ha, ih _ has⟩

theorem carryLost_eq_zero_iff (s : Nat) (a : Addend) :
    carryLost limit s a = 0 ↔ a.carried = true ∨ s + a.value < limit := by
  unfold carryLost
  grind

/-- Adding to a residue. An overflow takes off the limit and adds one, which is to take off
the modulus. -/
theorem residue_add {m r v : Nat} (hr : r < m) (hv : v ≤ m) :
    (r + v) % m + 1 = if r + 1 + v < m + 1 then r + 1 + v else r + 1 + v - (m + 1) + 1 := by
  split_ifs with hfits
  · rw [Nat.mod_eq_of_lt (by omega)]
    omega
  · rw [Nat.mod_eq_sub_mod (by omega), Nat.mod_eq_of_lt (by omega)]
    omega

theorem add_register {a : Addend} (hlimit : 1 < limit) (ha : a.value < limit)
    (hkept : a.carried = true ∨ register limit n + a.value < limit) :
    add limit (register limit n) a = register limit (n + a.value) := by
  by_cases hn : n = 0
  · rw [hn, register_zero, Nat.zero_add, add, Nat.zero_add, if_pos ha]
    by_cases hvalue : a.value = 0
    · rw [hvalue, register_zero]
    · rw [register_pos hvalue, Nat.mod_eq_of_lt (by omega)]
      omega
  · obtain ⟨m, rfl⟩ : ∃ m, limit = m + 1 := ⟨limit - 1, by omega⟩
    have hadd : n + a.value - 1 = n - 1 + a.value := by omega
    have hresidue := residue_add (Nat.mod_lt (n - 1) (by omega : m > 0)) (Nat.le_of_lt_succ ha)
    rw [register_pos hn, Nat.add_sub_cancel] at hkept ⊢
    rw [register_pos (by omega), hadd, Nat.add_sub_cancel, ← Nat.mod_add_mod, hresidue, add]
    grind

section Kept

variable (hlimit : 1 < limit) (has : ∀ a ∈ as, a.value < limit)

include hlimit has

theorem total_eq_register (hkept : CarriesKept limit n as) :
    total limit (register limit n) as = register limit (n + exact as) := by
  induction as generalizing n with
  | nil => rfl
  | cons a as ih =>
    obtain ⟨ha, has⟩ := List.forall_mem_cons.mp has
    rw [total, add_register hlimit ha hkept.1, ih has hkept.2, exact_cons, Nat.add_assoc]

theorem lost_eq_zero_iff : lost limit (register limit n) as = 0 ↔ CarriesKept limit n as := by
  induction as generalizing n with
  | nil => exact iff_of_true rfl trivial
  | cons a as ih =>
    obtain ⟨ha, has⟩ := List.forall_mem_cons.mp has
    rw [lost, Nat.add_eq_zero_iff, carryLost_eq_zero_iff, CarriesKept]
    refine and_congr_right fun hkept => ?_
    rw [add_register hlimit ha hkept]
    exact ih has

end Kept

end OnesComplement
