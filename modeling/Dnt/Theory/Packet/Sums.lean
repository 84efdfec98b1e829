import Dnt.Core.Checksum
import Dnt.Library.OnesComplement

/-!
# Sums of Octets

`csum_partial` reads memory in words of 32 bits as far as the alignment allows, and
the rest in words of 16 bits. It adds the carry back for the former only. A piece is
therefore a list of additions, with and without their carries, and how much they are
together does not depend on the address modulo 65535.

## Main definitions

* `octetSum`: What octets add up to in the byte order of the host.
* `WordOrder`: The words of a piece, as they are in memory or with their octets exchanged.
* `pieceAddends`: The additions that `csum_partial` makes for a piece of memory.
* `missing`: The number of 16 bits that completes a sum.

## Theorems

* `reads_wordAddends`: The words are numbers of 32 bits, and together they are the octets.
* `csumPartial_eq`: `csum_partial` makes these additions.
* `exact_pieceAddends`: Together they are the sum of the octets modulo 65535.
* `pieceAddends_carried`: A piece in whole words of 32 bits adds all its carries back.
* `countP_pieceAddends`: Any other piece has at most four additions that do not.
* `complement_eq_missing`: What `csum_fold` complements is the number that completes the sum.
-/

namespace Dnt

open OnesComplement

/-! ### Sums as lists of additions -/

/-- The carry of an addition of 32 bits is added back. -/
def wideAddend (value : Nat) : Addend :=
  ⟨value, true⟩

/-- That of a shorter one is lost. -/
def narrowAddend (value : Nat) : Addend :=
  ⟨value, false⟩

/-- Octets count alternately for themselves and for 256 times themselves. -/
def octetSum : Bool → List UInt8 → Nat
  | _, [] => 0
  | false, a :: rest => a.toNat + octetSum true rest
  | true, a :: rest => a.toNat * 2 ^ 8 + octetSum false rest

@[simp] theorem octetSum_nil (odd : Bool) : octetSum odd [] = 0 := by
  cases odd <;> rfl

/-- The words that `csumWords` reads, and what they are for the sum. -/
structure WordOrder where
  word : UInt8 → UInt8 → Nat
  wordLong : UInt8 → UInt8 → UInt8 → UInt8 → Nat
  last : UInt8 → Nat
  /-- The first octet counts for 256 times itself. -/
  odd : Bool
  word_lt : ∀ a b, word a b < 2 ^ 32
  wordLong_lt : ∀ a b c d, wordLong a b c d < 2 ^ 32
  last_lt : ∀ a, last a < 2 ^ 32
  word_add : ∀ a b rest, word a b + octetSum odd rest = octetSum odd (a :: b :: rest)
  /-- A word of 32 bits is more than its two halves by a multiple of 65535. -/
  wordLong_add : ∀ a b c d rest, ∃ k, wordLong a b c d + octetSum odd rest =
    octetSum odd (a :: b :: c :: d :: rest) + 65535 * k ∧
      k + octetSum odd rest ≤ octetSum odd (a :: b :: c :: d :: rest)
  last_add : ∀ a, last a = octetSum odd [a]

theorem word16_lt (a b : UInt8) : word16 a b < 2 ^ 16 := by
  have := a.toNat_lt
  have := b.toNat_lt
  unfold word16
  omega

theorem word32_lt (a b c d : UInt8) : word32 a b c d < 2 ^ 32 := by
  have := word16_lt a b
  have := word16_lt c d
  unfold word32
  omega

/-- The words of a piece at an even address. -/
def evenOrder : WordOrder where
  word := word16
  wordLong := word32
  last a := a.toNat
  odd := false
  word_lt a b := Nat.lt_trans (word16_lt a b) (by decide)
  wordLong_lt := word32_lt
  last_lt a := Nat.lt_trans a.toNat_lt (by decide)
  word_add a b rest := by
    simp only [word16, octetSum]
    omega
  wordLong_add a b c d rest := by
    refine ⟨word16 c d, ?_, ?_⟩
    · simp only [word32, word16, octetSum]
      omega
    · simp only [word16, octetSum]
      omega
  last_add _ := (Nat.add_zero _).symm

/-- Those behind the first octet of a piece at an odd address. -/
def oddOrder : WordOrder where
  word := swapped16
  wordLong := swapped32
  last a := a.toNat * 2 ^ 8
  odd := true
  word_lt a b := Nat.lt_trans (word16_lt b a) (by decide)
  wordLong_lt a b c d := word32_lt d c b a
  last_lt a := by
    have := a.toNat_lt
    omega
  word_add a b rest := by
    simp only [swapped16, word16, octetSum]
    omega
  wordLong_add a b c d rest := by
    refine ⟨word16 b a, ?_, ?_⟩
    · simp only [swapped32, word32, word16, octetSum]
      omega
    · simp only [word16, octetSum]
      omega
  last_add _ := (Nat.add_zero _).symm

variable (o : WordOrder) (addr : Nat)

/-- The words of a piece of memory and what is left behind them, as in `csumAlign`,
`csumLoop32` and `csumLoop16`. -/
def alignWords : List UInt8 → List Addend × List UInt8
  | a :: b :: rest =>
    if addr % 4 ≠ 0 then ([narrowAddend (o.word a b)], rest) else ([], a :: b :: rest)
  | rest => ([], rest)

/-- The words of 32 bits from an address on that 4 divides. -/
def longWords : List UInt8 → List Addend × List UInt8
  | a :: b :: c :: d :: rest =>
    (wideAddend (o.wordLong a b c d) :: (longWords rest).1, (longWords rest).2)
  | rest => ([], rest)

/-- The words of 16 bits behind them. -/
def shortWords : List UInt8 → List Addend × List UInt8
  | a :: b :: rest => (narrowAddend (o.word a b) :: (shortWords rest).1, (shortWords rest).2)
  | rest => ([], rest)

/-- An octet that is left over. -/
def lastOctet : List UInt8 → List Addend × List UInt8
  | [a] => ([narrowAddend (o.last a)], [])
  | rest => ([], rest)

/-- The additions of `csumWords`. -/
def wordAddends (bytes : List UInt8) : List Addend :=
  let aligned := alignWords o addr bytes
  let long := longWords o aligned.2
  let short := shortWords o long.2
  aligned.1 ++ (long.1 ++ (short.1 ++ (lastOctet o short.2).1))

/-- The additions of `csumPartial`. -/
def pieceAddends (bytes : List UInt8) : List Addend :=
  match bytes with
  | [] => []
  | a :: rest =>
    if addr % 2 = 1 then narrowAddend a.toNat :: wordAddends oddOrder (addr + 1) rest
    else wordAddends evenOrder addr bytes

variable {o addr} {bytes : List UInt8} {n sum : Nat}

open List

/-- What the words of a piece are: numbers of 32 bits which are together what was read
off the piece, but for a multiple of 65535. -/
structure Reads (o : WordOrder) (bytes : List UInt8) (read : List Addend × List UInt8) : Prop where
  lt : ∀ x ∈ read.1, x.value < 2 ^ 32
  sum : ∃ k, exact read.1 + octetSum o.odd read.2 = octetSum o.odd bytes + 65535 * k ∧
    k + octetSum o.odd read.2 ≤ octetSum o.odd bytes

theorem reads_nil (o : WordOrder) (bytes : List UInt8) : Reads o bytes ([], bytes) :=
  ⟨forall_mem_nil _, 0, Nat.zero_add _, Nat.le_of_eq (Nat.zero_add _)⟩

theorem Reads.append {read read' : List Addend × List UInt8} (h : Reads o bytes read)
    (h' : Reads o read.2 read') : Reads o bytes (read.1 ++ read'.1, read'.2) := by
  obtain ⟨j, hj, hjle⟩ := h.sum
  obtain ⟨k, hk, hkle⟩ := h'.sum
  refine ⟨forall_mem_append.mpr ⟨h.lt, h'.lt⟩, j + k, ?_, ?_⟩
  · dsimp only
    rw [exact_append]
    omega
  · dsimp only
    omega

theorem reads_word (o : WordOrder) (a b : UInt8) (rest : List UInt8) :
    Reads o (a :: b :: rest) ([narrowAddend (o.word a b)], rest) := by
  have hadd := o.word_add a b rest
  refine ⟨forall_mem_singleton.mpr (o.word_lt a b), 0, ?_, ?_⟩
  · rw [exact_cons, exact_nil]
    exact hadd
  · dsimp only
    omega

theorem reads_wordLong (o : WordOrder) (a b c d : UInt8) (rest : List UInt8) :
    Reads o (a :: b :: c :: d :: rest) ([wideAddend (o.wordLong a b c d)], rest) := by
  refine ⟨forall_mem_singleton.mpr (o.wordLong_lt a b c d), ?_⟩
  rw [exact_cons, exact_nil]
  exact o.wordLong_add a b c d rest

theorem reads_alignWords (o : WordOrder) (addr : Nat) (bytes : List UInt8) :
    Reads o bytes (alignWords o addr bytes) := by
  unfold alignWords
  split
  · split_ifs
    · exact reads_word o _ _ _
    · exact reads_nil o _
  · exact reads_nil o _

theorem reads_longWords (o : WordOrder) (bytes : List UInt8) :
    Reads o bytes (longWords o bytes) := by
  fun_induction longWords o bytes with
  | case1 a b c d rest ih => exact (reads_wordLong o a b c d rest).append ih
  | case2 rest hshort => exact reads_nil o rest

theorem reads_shortWords (o : WordOrder) (bytes : List UInt8) :
    Reads o bytes (shortWords o bytes) := by
  fun_induction shortWords o bytes with
  | case1 a b rest ih => exact (reads_word o a b rest).append ih
  | case2 rest hshort => exact reads_nil o rest

theorem reads_lastOctet (o : WordOrder) (bytes : List UInt8) :
    Reads o bytes (lastOctet o bytes) := by
  unfold lastOctet
  split
  · rename_i a
    refine ⟨forall_mem_singleton.mpr (o.last_lt a), 0, ?_, by simp⟩
    rw [exact_cons, exact_nil, octetSum_nil]
    exact o.last_add a
  · exact reads_nil o _

theorem length_longWords_rest (o : WordOrder) (bytes : List UInt8) :
    (longWords o bytes).2.length = bytes.length % 4 := by
  fun_induction longWords o bytes with
  | case1 a b c d rest ih =>
    simp only [length_cons]
    omega
  | case2 rest hshort =>
    match rest, hshort with
    | [], _ | [a], _ | [a, b], _ | [a, b, c], _ => rfl
    | a :: b :: c :: d :: rest, hshort => exact absurd rfl (hshort a b c d rest)

theorem lastOctet_shortWords_rest (o : WordOrder) (bytes : List UInt8) :
    (lastOctet o (shortWords o bytes).2).2 = [] := by
  fun_induction shortWords o bytes with
  | case1 a b rest ih => exact ih
  | case2 rest hshort =>
    match rest, hshort with
    | [], _ | [a], _ => rfl
    | a :: b :: rest, hshort => exact absurd rfl (hshort a b rest)

/-- All octets are read. -/
theorem reads_wordAddends (o : WordOrder) (addr : Nat) (bytes : List UInt8) :
    Reads o bytes (wordAddends o addr bytes, []) := by
  have hread := (reads_alignWords o addr bytes).append ((reads_longWords o _).append
    ((reads_shortWords o _).append (reads_lastOctet o _)))
  rwa [lastOctet_shortWords_rest] at hread

theorem pieceAddends_lt : ∀ x ∈ pieceAddends addr bytes, x.value < 2 ^ 32 := by
  cases bytes with
  | nil => exact forall_mem_nil _
  | cons a rest =>
    by_cases hodd : addr % 2 = 1
    · simp only [pieceAddends, if_pos hodd, forall_mem_cons]
      exact ⟨evenOrder.last_lt a, (reads_wordAddends oddOrder _ rest).lt⟩
    · simp only [pieceAddends, if_neg hodd]
      exact (reads_wordAddends evenOrder _ _).lt

/-! ### The additions of the code -/

theorem add_narrow {sum value : Nat} (hsum : sum < 2 ^ 32) (hvalue : value < 2 ^ 32) :
    add (2 ^ 32) sum (narrowAddend value) = u32 (sum + value) := by
  simp only [add, narrowAddend, u32, Bool.false_eq_true, if_false]
  split_ifs <;> omega

theorem add_wide (sum value : Nat) (hsum : sum < 2 ^ 32) (hvalue : value < 2 ^ 32) :
    add (2 ^ 32) sum (wideAddend value) =
      if sum + value ≥ 2 ^ 32 then u32 (u32 (sum + value) + 1) else sum + value := by
  simp only [add, wideAddend, u32, if_true]
  split_ifs <;> omega

theorem csumAlign_eq (hsum : sum < 2 ^ 32) : csumAlign o.word addr bytes sum =
    ((alignWords o addr bytes).2, total (2 ^ 32) sum (alignWords o addr bytes).1) := by
  match bytes with
  | [] | [a] => rfl
  | a :: b :: rest =>
    by_cases haddr : addr % 4 ≠ 0
    · simp only [csumAlign, alignWords, if_pos haddr, total]
      rw [add_narrow hsum (o.word_lt a b)]
    · simp only [csumAlign, alignWords, if_neg haddr, total]

theorem csumLoop32_eq (bytes : List UInt8) (sum : Nat) (hsum : sum < 2 ^ 32) :
    csumLoop32 o.wordLong bytes sum =
      ((longWords o bytes).2, total (2 ^ 32) sum (longWords o bytes).1) := by
  match bytes with
  | [] | [a] | [a, b] | [a, b, c] => rfl
  | a :: b :: c :: d :: rest =>
    have hvalue := o.wordLong_lt a b c d
    have hlt : add (2 ^ 32) sum (wideAddend (o.wordLong a b c d)) < 2 ^ 32 := add_lt hsum hvalue
    simp only [csumLoop32, longWords, total]
    rw [← add_wide sum _ hsum hvalue]
    exact csumLoop32_eq rest _ hlt

theorem csumLoop16_eq (bytes : List UInt8) (sum : Nat) (hsum : sum < 2 ^ 32) :
    csumLoop16 o.word bytes sum =
      ((shortWords o bytes).2, total (2 ^ 32) sum (shortWords o bytes).1) := by
  match bytes with
  | [] | [a] => rfl
  | a :: b :: rest =>
    have hvalue := o.word_lt a b
    have hlt : add (2 ^ 32) sum (narrowAddend (o.word a b)) < 2 ^ 32 := add_lt hsum hvalue
    simp only [csumLoop16, shortWords, total]
    rw [← add_narrow hsum hvalue]
    exact csumLoop16_eq rest _ hlt

theorem csumWords_eq (o : WordOrder) (addr : Nat) (bytes : List UInt8) (hsum : sum < 2 ^ 32) :
    csumWords o.word o.wordLong o.last addr bytes sum =
      total (2 ^ 32) sum (wordAddends o addr bytes) := by
  -- the sum stays in the register from one loop to the next
  have haligned := total_lt hsum (reads_alignWords o addr bytes).lt
  have hlong := total_lt haligned (reads_longWords o (alignWords o addr bytes).2).lt
  have hshort := total_lt hlong
    (reads_shortWords o (longWords o (alignWords o addr bytes).2).2).lt
  simp only [csumWords, csumAlign_eq hsum, csumLoop32_eq _ _ haligned,
    csumLoop16_eq _ _ hlong, wordAddends, total_append]
  match (shortWords o (longWords o (alignWords o addr bytes).2).2).2 with
  | [] => rfl
  | [a] => exact (add_narrow hshort (o.last_lt a)).symm
  | a :: b :: rest => rfl

theorem csumPartial_eq (addr : Nat) (hsum : sum < 2 ^ 32) :
    csumPartial addr bytes sum = total (2 ^ 32) sum (pieceAddends addr bytes) := by
  cases bytes with
  | nil => rfl
  | cons a rest =>
    have ha : a.toNat < 2 ^ 32 := evenOrder.last_lt a
    by_cases hodd : addr % 2 = 1
    · simp only [csumPartial, pieceAddends, if_pos hodd, total]
      rw [← add_narrow hsum ha]
      exact csumWords_eq oddOrder _ _ (add_lt hsum ha)
    · simp only [csumPartial, pieceAddends, if_neg hodd]
      exact csumWords_eq evenOrder _ _ hsum

/-! ### What a piece adds up to -/

theorem exact_pieceAddends_eq (addr : Nat) (bytes : List UInt8) :
    ∃ k, exact (pieceAddends addr bytes) = octetSum false bytes + 65535 * k ∧
      k ≤ octetSum false bytes := by
  cases bytes with
  | nil => exact ⟨0, rfl, Nat.le_refl _⟩
  | cons a rest =>
    by_cases hodd : addr % 2 = 1
    · obtain ⟨k, hk, hle⟩ := (reads_wordAddends oddOrder (addr + 1) rest).sum
      refine ⟨k, ?_, Nat.le_add_left_of_le hle⟩
      simp only [pieceAddends, if_pos hodd, exact_cons]
      exact (congrArg (a.toNat + ·) hk).trans (Nat.add_assoc _ _ _).symm
    · simp only [pieceAddends, if_neg hodd]
      exact (reads_wordAddends evenOrder addr (a :: rest)).sum

theorem exact_pieceAddends (addr : Nat) (bytes : List UInt8) :
    exact (pieceAddends addr bytes) ≡ octetSum false bytes [MOD 65535] := by
  obtain ⟨k, hk, -⟩ := exact_pieceAddends_eq addr bytes
  rw [hk]
  exact Nat.add_modulus_mul_modEq_iff.mpr (Nat.ModEq.refl _)

theorem octetSum_le_exact (addr : Nat) (bytes : List UInt8) :
    octetSum false bytes ≤ exact (pieceAddends addr bytes) := by
  obtain ⟨k, hk, -⟩ := exact_pieceAddends_eq addr bytes
  omega

theorem exact_pieceAddends_le (addr : Nat) (bytes : List UInt8) :
    exact (pieceAddends addr bytes) ≤ 2 ^ 16 * octetSum false bytes := by
  obtain ⟨k, hk, hle⟩ := exact_pieceAddends_eq addr bytes
  omega

/-! ### Additions that may lose a carry -/

theorem longWords_carried : ∀ x ∈ (longWords o bytes).1, x.carried = true := by
  fun_induction longWords o bytes with
  | case1 a b c d rest ih => exact forall_mem_cons.mpr ⟨rfl, ih⟩
  | case2 rest hshort => exact forall_mem_nil _

theorem pieceAddends_carried (haddr : addr % 4 = 0) (hlen : bytes.length % 4 = 0) :
    ∀ x ∈ pieceAddends addr bytes, x.carried = true := by
  cases bytes with
  | nil => exact forall_mem_nil _
  | cons a rest =>
    have halign : alignWords evenOrder addr (a :: rest) = ([], a :: rest) := by
      cases rest with
      | nil => rfl
      | cons b rest => exact if_neg (not_not.mpr haddr)
    have hrest : (longWords evenOrder (a :: rest)).2 = [] :=
      length_eq_zero_iff.mp ((length_longWords_rest _ _).trans hlen)
    have hodd : ¬ addr % 2 = 1 := by omega
    simp only [pieceAddends, if_neg hodd, wordAddends, halign, hrest, shortWords, lastOctet,
      nil_append, append_nil]
    exact longWords_carried

theorem length_alignWords (o : WordOrder) (addr : Nat) (bytes : List UInt8) :
    (alignWords o addr bytes).1.length ≤ 1 := by
  unfold alignWords
  grind

theorem length_shortWords (o : WordOrder) (bytes : List UInt8) :
    (shortWords o bytes).1.length ≤ bytes.length / 2 := by
  fun_induction shortWords o bytes with
  | case1 a b rest ih =>
    simp only [length_cons]
    omega
  | case2 rest hshort => exact Nat.zero_le _

theorem length_lastOctet (o : WordOrder) (bytes : List UInt8) :
    (lastOctet o bytes).1.length ≤ 1 := by
  unfold lastOctet
  split
  · exact Nat.le_refl 1
  · exact Nat.zero_le 1

theorem countP_wordAddends (o : WordOrder) (addr : Nat) (bytes : List UInt8) :
    ((wordAddends o addr bytes).countP fun x => !x.carried) ≤ 3 := by
  -- what is behind the long words is shorter than one of them
  have halign := length_alignWords o addr bytes
  have hlong := length_longWords_rest o (alignWords o addr bytes).2
  have hshort := length_shortWords o (longWords o (alignWords o addr bytes).2).2
  have hlast := length_lastOctet o (shortWords o (longWords o (alignWords o addr bytes).2).2).2
  have hwide : ((longWords o (alignWords o addr bytes).2).1.countP fun x => !x.carried) = 0 := by
    refine countP_eq_zero.mpr fun x hx => ?_
    rw [longWords_carried x hx]
    exact Bool.false_ne_true
  simp only [wordAddends, countP_append, hwide]
  have h₁ := countP_le_length (p := fun x => !x.carried) (l := (alignWords o addr bytes).1)
  have h₂ := countP_le_length (p := fun x => !x.carried)
    (l := (shortWords o (longWords o (alignWords o addr bytes).2).2).1)
  have h₃ := countP_le_length (p := fun x => !x.carried)
    (l := (lastOctet o (shortWords o (longWords o (alignWords o addr bytes).2).2).2).1)
  omega

theorem countP_pieceAddends (addr : Nat) (bytes : List UInt8) :
    ((pieceAddends addr bytes).countP fun x => !x.carried) ≤ 4 := by
  cases bytes with
  | nil => exact Nat.zero_le 4
  | cons a rest =>
    by_cases hodd : addr % 2 = 1
    · have := countP_wordAddends oddOrder (addr + 1) rest
      simp only [pieceAddends, if_pos hodd, countP_cons]
      split_ifs <;> omega
    · have := countP_wordAddends evenOrder addr (a :: rest)
      simp only [pieceAddends, if_neg hodd]
      omega

/-! ### Folding -/

/-- One of the two steps of `csum_fold`. -/
def foldOnce (sum : Nat) : Nat :=
  sum % 2 ^ 16 + sum / 2 ^ 16

theorem foldOnce_modEq (sum : Nat) : foldOnce sum ≡ sum [MOD 65535] := by
  have hsum : foldOnce sum + 65535 * (sum / 2 ^ 16) = sum := by
    unfold foldOnce
    omega
  conv_rhs => rw [← hsum]
  exact (Nat.add_modulus_mul_modEq_iff.mpr (Nat.ModEq.refl _)).symm

theorem foldOnce_eq_zero_iff (sum : Nat) : foldOnce sum = 0 ↔ sum = 0 := by
  unfold foldOnce
  omega

theorem foldOnce_foldOnce_lt (hsum : sum < 2 ^ 32) : foldOnce (foldOnce sum) < 2 ^ 16 := by
  have hhigh : sum / 2 ^ 16 < 2 ^ 16 := by omega
  have hfold : foldOnce sum ≤ 2 ^ 16 - 1 + (2 ^ 16 - 1) := by
    unfold foldOnce
    omega
  unfold foldOnce at hfold ⊢
  omega

theorem foldTwice_spec (hsum : sum < 2 ^ 32) :
    foldOnce (foldOnce sum) < 2 ^ 16 ∧ foldOnce (foldOnce sum) ≡ sum [MOD 65535] ∧
      (foldOnce (foldOnce sum) = 0 ↔ sum = 0) :=
  ⟨foldOnce_foldOnce_lt hsum, (foldOnce_modEq _).trans (foldOnce_modEq sum),
    (foldOnce_eq_zero_iff _).trans (foldOnce_eq_zero_iff sum)⟩

theorem csumFold_eq (hsum : sum < 2 ^ 32) :
    csumFold sum = (2 ^ 16 - 1 - foldOnce (foldOnce sum)) % 2 ^ 8 * 2 ^ 8 +
      (2 ^ 16 - 1 - foldOnce (foldOnce sum)) / 2 ^ 8 := by
  have hfold : foldOnce (foldOnce sum) % 2 ^ 16 = foldOnce (foldOnce sum) :=
    Nat.mod_eq_of_lt (foldOnce_foldOnce_lt hsum)
  conv_rhs => rw [← hfold]
  rfl

theorem csumFold_eq_zero_iff (hsum : sum < 2 ^ 32) :
    csumFold sum = 0 ↔ sum ≡ 0 [MOD 65535] ∧ sum ≠ 0 := by
  obtain ⟨hlt, hmod, hzero⟩ := foldTwice_spec hsum
  rw [csumFold_eq hsum, Ne, ← hzero]
  unfold Nat.ModEq at hmod ⊢
  rw [← hmod]
  generalize foldOnce (foldOnce sum) = folded at hlt
  omega

theorem exchanged16 (hn : n < 2 ^ 16) : (n % 2 ^ 8 * 2 ^ 8 + n / 2 ^ 8) / 2 ^ 8 = n % 2 ^ 8 ∧
      (n % 2 ^ 8 * 2 ^ 8 + n / 2 ^ 8) % 2 ^ 8 = n / 2 ^ 8 := by
  have hhigh : n / 2 ^ 8 < 2 ^ 8 := by omega
  omega

/-- The number of 16 bits that completes a sum. -/
def missing (sum : Nat) : Nat :=
  if sum = 0 then 65535 else (65535 - sum % 65535) % 65535

theorem missing_lt (sum : Nat) : missing sum < 2 ^ 16 := by
  unfold missing
  split_ifs <;> omega

theorem complement_eq_missing (hsum : sum < 2 ^ 32) :
    2 ^ 16 - 1 - foldOnce (foldOnce sum) = missing sum := by
  obtain ⟨hlt, hmod, hzero⟩ := foldTwice_spec hsum
  unfold Nat.ModEq at hmod
  unfold missing
  generalize foldOnce (foldOnce sum) = folded at hlt hmod hzero
  split_ifs <;> omega

end Dnt
