import Mathlib.Algebra.Order.Ring.Int
import Mathlib.Data.List.Basic

/-!
# Bits of a Memory of Octets

A memory of octets is also a memory of bits, the most significant bit of an octet
first. This is how protocols number the bits of a header, and a field is a range of
bits. Programs can only write octets, so the part of a range that is set grows with
every octet.

## Main definitions

* `Bits.bit`: A bit of a memory.
* `Bits.number`: The number with given bits.
* `Bits.Sets`: A range of bits is set to those of a source, and nothing else changes.

## Theorems

* `Bits.number_testBit`: The bits of a number make up the number.
-/

namespace Bits

/-- Bit `k` of an octet, the most significant one first. -/
def octetBit (a : UInt8) (k : Nat) : Bool :=
  a.toBitVec.getMsbD k

/-- Bit `i` of a memory. -/
def bit (m : Nat → UInt8) (i : Nat) : Bool :=
  octetBit (m (i / 8)) (i % 8)

@[simp] theorem octetBit_zero (k : Nat) : octetBit 0 k = false := by
  simp [octetBit]

theorem octetBit_ofNat (n : Nat) {k : Nat} (hk : k < 8) :
    octetBit (UInt8.ofNat n) k = n.testBit (7 - k) := by
  have hlt : 8 - 1 - k < 8 := by omega
  change (BitVec.ofNat 8 n).getMsbD k = _
  rw [BitVec.getMsbD, BitVec.getLsbD_ofNat, decide_eq_true hk, decide_eq_true hlt, Bool.true_and,
    Bool.true_and]

theorem ext_octetBit {a b : UInt8} (h : ∀ k < 8, octetBit a k = octetBit b k) : a = b := by
  refine UInt8.toBitVec_inj.mp (BitVec.eq_of_getMsbD_eq fun k hk => ?_)
  exact h k hk

theorem octetBit_and (a b : UInt8) (k : Nat) :
    octetBit (a &&& b) k = (octetBit a k && octetBit b k) := by
  rw [octetBit, UInt8.toBitVec_and, BitVec.getMsbD_and]
  rfl

theorem octetBit_or (a b : UInt8) (k : Nat) :
    octetBit (a ||| b) k = (octetBit a k || octetBit b k) := by
  rw [octetBit, UInt8.toBitVec_or, BitVec.getMsbD_or]
  rfl

theorem octetBit_not (a : UInt8) {k : Nat} (hk : k < 8) : octetBit (~~~a) k = !octetBit a k := by
  rw [octetBit, UInt8.toBitVec_not, BitVec.getMsbD_not, decide_eq_true hk, Bool.true_and]
  rfl

/-- An octet with the bits of the mask from one octet, and the others from another one. -/
theorem octetBit_merge (mask dst src : UInt8) {k : Nat} (hk : k < 8) :
    octetBit ((dst &&& ~~~mask) ||| (src &&& mask)) k =
      if octetBit mask k = true then octetBit src k else octetBit dst k := by
  grind [octetBit_or, octetBit_and, octetBit_not]

theorem and_eq_and_iff (mask a b : UInt8) :
    a &&& mask = b &&& mask ↔ ∀ k < 8, octetBit mask k = true → octetBit a k = octetBit b k := by
  constructor
  · intro h k _ hmask
    have hbit := congrArg (octetBit · k) h
    simp only [octetBit_and, hmask, Bool.and_true] at hbit
    exact hbit
  · intro h
    refine ext_octetBit fun k hk => ?_
    rw [octetBit_and, octetBit_and]
    cases hmask : octetBit mask k with
    | false => rw [Bool.and_false, Bool.and_false]
    | true => rw [h k hk hmask]

variable (m : Nat → UInt8) (x y : Nat → UInt8)

theorem bit_eq {a k : Nat} (hk : k < 8) :
    bit m (8 * a + k) = octetBit (m a) k := by
  have hdiv : (8 * a + k) / 8 = a := by omega
  have hmod : (8 * a + k) % 8 = k := by omega
  rw [bit, hdiv, hmod]

theorem bit_update (a : Nat) (v : UInt8) (i : Nat) :
    bit (Function.update m a v) i = if i / 8 = a then octetBit v (i % 8) else bit m i := by
  unfold bit
  grind

/-- The `n` bits from `first` on are set to those of `source`, and the others are as they
were. -/
def Sets (m m' : Nat → UInt8) (first n : Nat) (source : Nat → Bool) : Prop :=
  ∀ i, bit m' i = if first ≤ i ∧ i < first + n then source (i - first) else bit m i

theorem Sets.refl (first : Nat) (source : Nat → Bool) :
    Sets m m first 0 source := by
  intro i
  rw [if_neg (by omega)]

theorem Sets.inside {m m' : Nat → UInt8} {first n : Nat} {source : Nat → Bool}
    (h : Sets m m' first n source) {k : Nat} (hk : k < n) : bit m' (first + k) = source k := by
  rw [h, if_pos (by omega), Nat.add_sub_cancel_left]

theorem Sets.outside {m m' : Nat → UInt8} {first n : Nat} {source : Nat → Bool}
    (h : Sets m m' first n source) {i : Nat} (hi : i < first ∨ first + n ≤ i) :
    bit m' i = bit m i := by
  rw [h, if_neg (by omega)]

/-- The next octet is written: its bits from `lo` to `hi` are the next ones of the range, and
its other bits are kept. -/
theorem Sets.store {m m' : Nat → UInt8} {first n : Nat} {source : Nat → Bool}
    (h : Sets m m' first n source) {a lo hi : Nat} (hnext : first + n = 8 * a + lo)
    (hle : lo ≤ hi) (hhi : hi ≤ 8) {v : UInt8}
    (hv : ∀ k < 8, octetBit v k =
      if lo ≤ k ∧ k < hi then source (8 * a + k - first) else octetBit (m' a) k) :
    Sets m (Function.update m' a v) first (n + (hi - lo)) source := by
  intro i
  rw [bit_update]
  by_cases ha : i / 8 = a
  · have hi8 : 8 * a + i % 8 = i := by omega
    have hbit := h i
    rw [bit, ha] at hbit
    rw [if_pos ha, hv _ (by omega), hi8, hbit]
    -- in the octet, the range now goes up to `hi`
    grind
  · rw [if_neg ha, h]
    grind

/-! ### Comparing -/

/-- The bits from `first` to `last` are the same. -/
def Agree (x y : Nat → UInt8) (first last : Nat) : Prop :=
  ∀ i, first ≤ i → i < last → bit x i = bit y i

theorem agree_append {a b c : Nat} (hab : a ≤ b) (hbc : b ≤ c) :
    Agree x y a c ↔ Agree x y a b ∧ Agree x y b c := by
  constructor
  · intro h
    exact ⟨fun i hi hlt => h i hi (by omega), fun i hi hlt => h i (by omega) hlt⟩
  · rintro ⟨hfst, hsnd⟩ i hi hlt
    by_cases hb : i < b
    · exact hfst i hi hb
    · exact hsnd i (by omega) hlt

theorem agree_masked {mask : UInt8} {lo hi : Nat} (hhi : hi ≤ 8)
    (hmask : ∀ k < 8, octetBit mask k = decide (lo ≤ k ∧ k < hi)) (a : Nat) :
    x a &&& mask = y a &&& mask ↔ Agree x y (8 * a + lo) (8 * a + hi) := by
  rw [and_eq_and_iff]
  constructor
  · intro h i hlo hlt
    obtain ⟨k, rfl⟩ := Nat.exists_eq_add_of_le (Nat.le_of_add_right_le hlo)
    have hk : k < 8 := by omega
    rw [bit_eq x hk, bit_eq y hk]
    exact h k hk (by rw [hmask k hk, decide_eq_true_eq]; omega)
  · intro h k hk hin
    rw [hmask k hk, decide_eq_true_eq] at hin
    have hbit := h (8 * a + k) (by omega) (by omega)
    rwa [bit_eq x hk, bit_eq y hk] at hbit

theorem agree_octets (a n : Nat) :
    (∀ i < n, x (a + i) = y (a + i)) ↔ Agree x y (8 * a) (8 * (a + n)) := by
  constructor
  · intro h i hlo hlt
    have hoctet := h (i / 8 - a) (by omega)
    have haddr : a + (i / 8 - a) = i / 8 := by omega
    rw [haddr] at hoctet
    rw [bit, bit, hoctet]
  · intro h i hi
    refine ext_octetBit fun k hk => ?_
    have hbit := h (8 * (a + i) + k) (by omega) (by omega)
    rwa [bit_eq x hk, bit_eq y hk] at hbit

/-! ### Numbers -/

/-- The number with these bits, the most significant one first. -/
def number (f : Nat → Bool) : Nat → Nat
  | 0 => 0
  | n + 1 => 2 * number f n + (f n).toNat

theorem number_congr {f g : Nat → Bool} {n : Nat} (h : ∀ k < n, f k = g k) :
    number f n = number g n := by
  induction n with
  | zero => rfl
  | succ n ih =>
    rw [number, number, ih fun k hk => h k (Nat.lt_succ_of_lt hk), h n (Nat.lt_succ_self n)]

theorem number_testBit (a n : Nat) : number (fun k => a.testBit (n - 1 - k)) n = a % 2 ^ n := by
  induction n generalizing a with
  | zero => rw [Nat.pow_zero, Nat.mod_one, number]
  | succ n ih =>
    -- all bits but the last one are those of half the number
    have hhalf : number (fun k => a.testBit (n + 1 - 1 - k)) n = a / 2 % 2 ^ n := by
      rw [← ih (a / 2)]
      refine number_congr fun k hk => ?_
      have hindex : n + 1 - 1 - k = n - 1 - k + 1 := by omega
      rw [hindex, Nat.testBit_succ]
    have hlast : n + 1 - 1 - n = 0 := by omega
    rw [number, hhalf, hlast, Nat.testBit_zero, Nat.pow_succ', Nat.mod_mul]
    have hparity : (decide (a % 2 = 1)).toNat = a % 2 := by
      rcases Nat.mod_two_eq_zero_or_one a with h | h <;> rw [h] <;> rfl
    rw [hparity, Nat.add_comm]

end Bits
