import Dnt.Theory.Fields.Compare

/-!
# Numbers in Fields

`prepare_constant_number` fills its buffer from the last octet to the first one,
as long as the number has bits left. The index goes below zero and around when
the first octet is written, but by then the number has no bits left. Zero has one bit
for the function, so a field without bits takes no number at all.

## Theorems

* `constantWrites_exact`: When there are writes, where they are, and every bit
  of the buffer after them.
-/

namespace Dnt

open Bits List

variable {num numBits offset bitoffset bitcount n : Nat}

theorem u32_pred (hn : n < 4294967296) : u32 (n + 1 + 4294967295) = n := by
  unfold u32
  omega

theorem numberOctets_of_le (h : numBits ≤ offset) :
    numberOctets num numBits offset n = replicate n 0 := by
  induction n generalizing offset with
  | zero => rfl
  | succ n ih =>
    rw [numberOctets, if_neg (Nat.not_lt.mpr h), ih (Nat.le_add_right_of_le h), replicate_succ]

/-- The loop with `n` octets left in front of it does not leave them. -/
theorem constantLoop_lt (hfit : numBits ≤ offset + 8 * n) (hn : n < 4294967296)
    {w : Nat × UInt8} (h : w ∈ constantLoop num numBits offset (u32 (n + 4294967295))) :
    w.1 < n := by
  induction n generalizing offset with
  | zero =>
    rw [constantLoop, if_neg (by omega)] at h
    nomatch h
  | succ n ih =>
    rw [u32_pred (by omega), constantLoop] at h
    split at h
    · rcases mem_cons.mp h with rfl | h
      · exact Nat.lt_add_one n
      · exact Nat.lt_add_right 1 (ih (by omega) (by omega) h)
    · nomatch h

theorem set_replicate_append (n : Nat) (a : UInt8) (behind : List UInt8) :
    (replicate (n + 1) 0 ++ behind).set n a = replicate n 0 ++ a :: behind := by
  rw [replicate_succ', append_assoc, set_append_right _ _ (Nat.le_of_eq length_replicate),
    length_replicate, Nat.sub_self]
  rfl

/-- The loop fills the `n` octets in front of those that are written. -/
theorem foldl_constantLoop (hfit : numBits ≤ offset + 8 * n) (hn : n < 4294967296)
    (behind : List UInt8) : (constantLoop num numBits offset (u32 (n + 4294967295))).foldl
        (fun buf w => buf.set w.1 w.2) (replicate n 0 ++ behind) =
      (numberOctets num numBits offset n).reverse ++ behind := by
  induction n generalizing offset behind with
  | zero =>
    rw [constantLoop, if_neg (by omega)]
    rfl
  | succ n ih =>
    rw [u32_pred (by omega), constantLoop]
    by_cases hmore : offset < numBits
    · rw [if_pos hmore, foldl_cons, set_replicate_append, ih (by omega) (by omega), numberOctets,
        if_pos hmore, reverse_cons, append_assoc]
      rfl
    · rw [if_neg hmore, numberOctets_of_le (Nat.not_lt.mp hmore), reverse_replicate]
      rfl

theorem constantWrites_isSome :
    (constantWrites bitoffset bitcount num).isSome ↔ 1 ≤ bitcount ∧ num < 2 ^ bitcount := by
  have hlog : num.log2 + 1 ≤ bitcount ↔ 1 ≤ bitcount ∧ num < 2 ^ bitcount := by
    cases num with
    | zero =>
      rw [Nat.log2_zero]
      exact ⟨fun h => ⟨h, Nat.two_pow_pos _⟩, And.left⟩
    | succ num =>
      rw [Nat.succ_le_iff, Nat.log2_lt (Nat.succ_ne_zero num)]
      refine ⟨fun h => ⟨?_, h⟩, And.right⟩
      cases bitcount with
      | zero => omega
      | succ bitcount => exact Nat.le_add_left 1 bitcount
  rw [← hlog]
  unfold constantWrites
  grind

/-- What there is to know about the writes, when there are some: `n` octets in
front of the last one. -/
theorem constantWrites_cases (hcount : bitcount ≤ 64) {len : Nat} {writes : List (Nat × UInt8)}
    (h : constantWrites bitoffset bitcount num = some (len, writes)) :
    ∃ n offset, len = n + 1 ∧ n < 4294967295 ∧ len = (bitoffset % 8 + bitcount + 7) / 8 ∧
      num.log2 + 1 ≤ 8 - offset + 8 * n ∧ writes = (n, UInt8.ofNat (num <<< offset)) ::
        constantLoop num (num.log2 + 1) (8 - offset) (u32 (n + 4294967295)) ∧
      prepareConstantNumber bitoffset bitcount num = some
        ⟨(numberOctets num (num.log2 + 1) (8 - offset) n).reverse ++
          [UInt8.ofNat (num <<< offset)], bitoffset % 8, bitcount⟩ := by
  unfold constantWrites at h
  unfold prepareConstantNumber
  by_cases hbits : num.log2 + 1 > bitcount
  · rw [if_pos hbits] at h
    cases h
  rw [if_neg hbits, Option.some.injEq, Prod.mk.injEq] at h
  obtain ⟨hlen, hwrites⟩ := h
  rw [if_neg hbits]
  obtain ⟨n, rfl⟩ : ∃ n, len = n + 1 := ⟨len - 1, by omega⟩
  rw [hlen] at hwrites ⊢
  rw [u32_pred (by omega)] at hwrites
  exact ⟨n, _, rfl, by omega, rfl, by omega, hwrites.symm,
    by simp only [hlen, reverse_cons, Nat.add_sub_cancel]⟩

/-- The buffer after the writes is the value the rest of the model goes on with. -/
theorem writtenBuffer_constantWrites (hcount : bitcount ≤ 64) {len : Nat}
    {writes : List (Nat × UInt8)} (h : constantWrites bitoffset bitcount num = some (len, writes)) :
    prepareConstantNumber bitoffset bitcount num =
      some ⟨writtenBuffer len writes, bitoffset % 8, bitcount⟩ := by
  obtain ⟨n, offset, rfl, hn, -, hfit, rfl, hvalue⟩ := constantWrites_cases hcount h
  have hset := set_replicate_append n (UInt8.ofNat (num <<< offset)) []
  rw [append_nil] at hset
  rw [hvalue, writtenBuffer, foldl_cons, hset, foldl_constantLoop hfit (by omega)]

/-- Exactly the numbers below `2 ^ bitcount` can be put into a field that has bits. All
writes are inside of the buffer, and set the bits of the number at the place of the
field. -/
theorem constantWrites_exact (bitoffset bitcount num : Nat) (hcount : bitcount ≤ 64) :
    ((constantWrites bitoffset bitcount num).isSome ↔ 1 ≤ bitcount ∧ num < 2 ^ bitcount) ∧
      ∀ len writes, constantWrites bitoffset bitcount num = some (len, writes) →
        len = (bitoffset % 8 + bitcount + 7) / 8 ∧ (∀ w ∈ writes, w.1 < len) ∧
        ∀ k < 8 * len, bit (fun i => (writtenBuffer len writes).getD i 0) k =
          if bitoffset % 8 ≤ k ∧ k < bitoffset % 8 + bitcount then
            num.testBit (bitcount - 1 - (k - bitoffset % 8)) else false := by
  refine ⟨constantWrites_isSome, fun len writes h => ?_⟩
  have hnum := (constantWrites_isSome.mp (Option.isSome_of_eq_some h)).2
  have hbit := @bit_prepareConstantNumber _ _ _ _ (writtenBuffer_constantWrites hcount h)
  obtain ⟨n, offset, rfl, hn, hlen, hfit, rfl, -⟩ := constantWrites_cases hcount h
  refine ⟨hlen, fun w hw => ?_, fun k hk => ?_⟩
  · rcases mem_cons.mp hw with rfl | hw
    · exact Nat.lt_add_one n
    · exact Nat.lt_add_right 1 (constantLoop_lt hfit (by omega) hw)
  · rw [hbit (hlen ▸ hk)]
    by_cases hfront : bitoffset % 8 ≤ k
    · grind
    · -- in front of the field the number has no bits any more
      have hpow : 2 ^ bitcount ≤ 2 ^ (bitoffset % 8 + bitcount - 1 - k) :=
        Nat.pow_le_pow_right (by decide) (by omega)
      rw [if_pos (by omega), if_neg (fun h => hfront h.1),
        Nat.testBit_lt_two_pow (Nat.lt_of_lt_of_le hnum hpow)]

/-- The number 5 in the three bits behind the first seven. -/
theorem constantWrites_exact_three : 3 ≤ 64 ∧ (constantWrites 7 3 5).isSome :=
  ⟨by decide, (constantWrites_exact 7 3 5 (by decide)).1.mpr (by decide)⟩

/-- Zero is below `2 ^ 0`, but a field without bits does not take it. -/
theorem no_number_without_bits : 0 < 2 ^ 0 ∧ constantWrites 0 0 0 = none :=
  ⟨by decide, by simp [constantWrites]⟩

end Dnt
