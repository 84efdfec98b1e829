import Dnt.Theory.Packet.Sums

/-!
# The Internet Checksum

The checksum of some octets is the complement of the one's complement sum of their
words in network byte order. `csum_partial` and `csum_fold` use the byte order of
the host, words of 32 bits where they can, and several pieces.

Exchanging the octets of a number is multiplying it by 256 modulo 65535, so only the
carries that narrow additions lose matter, unless their number is a multiple of
65535.

## Main definitions

* `internetChecksum`, `piecesChecksum`: The checksum of octets, and of octets in pieces.
* `csumChain`: `csum_partial` for one piece of memory after the other.
* `chainLost`: The number of carries it loses.
* `NoCarryLost`: It loses none, said by the octets and the addresses of the pieces.

## Theorems

* `internetChecksum_eq`: The checksum is the number that completes the sum of the octets,
  with its octets exchanged.
* `csumFold_csumChain_of_noCarryLost`: Where no carry is lost, `csum_fold` of the sum is the
  checksum of the pieces.
* `noCarryLost_of_fold_eq_zero`: A sum that should be zero is folded to zero only if no carry
  was lost.
* `noCarryLost_of_aligned`: Pieces in whole words of 32 bits lose none.
* `csumFold_csumChain_iff`: The two are the same just if the number of lost carries is a
  multiple of 65535 and the register is zero only for zeros.
-/

namespace Dnt

variable {pieces : List (Nat × List UInt8)} {n : Nat}

open OnesComplement

/-! ### The definition of the checksum -/

/-- Words in network byte order. A last octet is padded with zero. -/
def networkWords : List UInt8 → List Nat
  | a :: b :: rest => (a.toNat * 2 ^ 8 + b.toNat) :: networkWords rest
  | [a] => [a.toNat * 2 ^ 8]
  | [] => []

/-- All carries are added back. -/
def internetChecksum (bytes : List UInt8) : Nat :=
  2 ^ 16 - 1 - total (2 ^ 16) 0 ((networkWords bytes).map wideAddend)

/-- The two octets of a number exchanged. -/
def exchanged (n : Nat) : Nat :=
  n % 2 ^ 8 * 2 ^ 8 + n / 2 ^ 8

open List

theorem exchanged_modEq : exchanged n ≡ 2 ^ 8 * n [MOD 65535] := by
  have hsum : 2 ^ 8 * n = exchanged n + 65535 * (n / 2 ^ 8) := by
    unfold exchanged
    omega
  rw [hsum]
  exact (Nat.add_modulus_mul_modEq_iff.mpr (Nat.ModEq.refl _)).symm

theorem exchanged_lt (hn : n < 2 ^ 16) : exchanged n < 2 ^ 16 := by
  unfold exchanged
  omega

theorem exchanged_injective {m : Nat} (hm : m < 2 ^ 16) (hn : n < 2 ^ 16)
    (h : exchanged m = exchanged n) : m = n := by
  obtain ⟨hm₁, hm₂⟩ := exchanged16 hm
  obtain ⟨hn₁, hn₂⟩ := exchanged16 hn
  unfold exchanged at h
  rw [h] at hm₁ hm₂
  omega

theorem exchanged_exchanged (hn : n < 2 ^ 16) : exchanged (exchanged n) = n := by
  obtain ⟨hfirst, hsecond⟩ := exchanged16 hn
  rw [exchanged, exchanged, hfirst, hsecond]
  omega

theorem exchanged_eq_max (hn : n < 2 ^ 16) : exchanged n = 65535 ↔ n = 65535 := by
  unfold exchanged
  omega

theorem modEq_square : n ≡ 2 ^ 8 * (2 ^ 8 * n) [MOD 65535] := by
  have hsum : 2 ^ 8 * (2 ^ 8 * n) = n + 65535 * n := by omega
  rw [hsum]
  exact (Nat.add_modulus_mul_modEq_iff.mpr (Nat.ModEq.refl _)).symm

theorem networkWords_lt {bytes : List UInt8} :
    ∀ x ∈ (networkWords bytes).map wideAddend, x.value < 2 ^ 16 := by
  fun_induction networkWords bytes with
  | case1 a b rest ih =>
    refine forall_mem_cons.mpr ⟨?_, ih⟩
    have := a.toNat_lt
    have := b.toNat_lt
    simp only [wideAddend]
    omega
  | case2 a =>
    refine forall_mem_cons.mpr ⟨?_, forall_mem_nil _⟩
    have := a.toNat_lt
    simp only [wideAddend]
    omega
  | case3 => exact forall_mem_nil _

variable (bytes : List UInt8) (piece : Nat × List UInt8)

/-- In the other byte order the sum is 256 times as much, but for a multiple of 65535. -/
theorem exact_networkWords : ∃ k, 2 ^ 8 * octetSum false bytes =
      exact ((networkWords bytes).map wideAddend) + 65535 * k := by
  fun_induction networkWords bytes with
  | case1 a b rest ih =>
    obtain ⟨k, hk⟩ := ih
    refine ⟨b.toNat + k, ?_⟩
    simp only [octetSum, map_cons, exact_cons, wideAddend] at hk ⊢
    omega
  | case2 a =>
    refine ⟨0, ?_⟩
    simp only [octetSum, map_cons, map_nil, exact_cons, exact_nil, wideAddend]
    omega
  | case3 => exact ⟨0, rfl⟩

theorem octetSum_le_networkWords :
    octetSum false bytes ≤ 2 ^ 8 * exact ((networkWords bytes).map wideAddend) := by
  fun_induction networkWords bytes with
  | case1 a b rest ih =>
    simp only [octetSum, map_cons, exact_cons, wideAddend] at ih ⊢
    omega
  | case2 a =>
    simp only [octetSum, map_cons, map_nil, exact_cons, exact_nil, wideAddend]
    omega
  | case3 => exact Nat.le_refl _

/-- The number that completes a sum is the only one of 16 bits, where one of the two zeros
is for the number zero. -/
theorem eq_missing {sum : Nat} (hlt : n < 2 ^ 16) (hzero : n = 65535 ↔ sum = 0)
    (hmod : n + sum ≡ 0 [MOD 65535]) : n = missing sum := by
  unfold Nat.ModEq at hmod
  unfold missing
  split_ifs with hsum
  · exact hzero.mpr hsum
  · have hne : n ≠ 65535 := fun h => hsum (hzero.mp h)
    omega

theorem total_networkWords :
    total (2 ^ 16) 0 ((networkWords bytes).map wideAddend) < 2 ^ 16 ∧
      (total (2 ^ 16) 0 ((networkWords bytes).map wideAddend) = 0 ↔ octetSum false bytes = 0) ∧
      total (2 ^ 16) 0 ((networkWords bytes).map wideAddend) ≡ 2 ^ 8 * octetSum false bytes
        [MOD 65535] := by
  have hwide : ∀ x ∈ (networkWords bytes).map wideAddend, x.carried = true := by
    intro x hx
    obtain ⟨w, -, rfl⟩ := mem_map.mp hx
    rfl
  have htotal : total (2 ^ 16) 0 ((networkWords bytes).map wideAddend) =
      register (2 ^ 16) (exact ((networkWords bytes).map wideAddend)) := by
    have h := total_eq_register (n := 0) (by decide) networkWords_lt
      (carriesKept_of_carried 0 hwide)
    rwa [register_zero, Nat.zero_add] at h
  obtain ⟨k, hk⟩ := exact_networkWords bytes
  have hle := octetSum_le_networkWords bytes
  refine ⟨total_lt (by decide) networkWords_lt, ?_, ?_⟩
  · rw [htotal, register_eq_zero_iff]
    omega
  · rw [htotal, hk]
    exact (register_modEq (2 ^ 16) _).trans
      (Nat.add_modulus_mul_modEq_iff.mpr (Nat.ModEq.refl _)).symm

theorem internetChecksum_eq :
    internetChecksum bytes = exchanged (missing (octetSum false bytes)) := by
  obtain ⟨hlt, hzero, hmod⟩ := total_networkWords bytes
  have hsum : internetChecksum bytes = 2 ^ 16 - 1 -
      total (2 ^ 16) 0 ((networkWords bytes).map wideAddend) := rfl
  generalize total (2 ^ 16) 0 ((networkWords bytes).map wideAddend) = t at hlt hzero hmod hsum
  have hcheck : internetChecksum bytes < 2 ^ 16 := by omega
  rw [← exchanged_exchanged hcheck]
  refine congrArg exchanged (eq_missing (exchanged_lt hcheck) ?_ ?_)
  · rw [exchanged_eq_max hcheck, ← hzero]
    omega
  · -- both are multiplied by 256
    calc exchanged (internetChecksum bytes) + octetSum false bytes
        ≡ 2 ^ 8 * internetChecksum bytes + octetSum false bytes [MOD 65535] :=
          (exchanged_modEq).add_right _
      _ ≡ 2 ^ 8 * internetChecksum bytes + 2 ^ 8 * (2 ^ 8 * octetSum false bytes)
          [MOD 65535] := (modEq_square).add_left _
      _ ≡ 2 ^ 8 * internetChecksum bytes + 2 ^ 8 * t [MOD 65535] :=
          (hmod.symm.mul_left _).add_left _
      _ = 2 ^ 8 * 65535 := by omega
      _ ≡ 0 [MOD 65535] := by decide

/-! ### Pieces -/

variable (pieces)

/-- `csum_partial` for pieces of memory, one after the other. -/
def csumChain (sum : Nat) : Nat :=
  pieces.foldl (fun sum piece => csumPartial piece.1 piece.2 sum) sum

def chainAddends : List Addend :=
  pieces.flatMap fun piece => pieceAddends piece.1 piece.2

def chainOctets : List UInt8 :=
  pieces.flatMap Prod.snd

@[simp] theorem chainAddends_cons :
    chainAddends (piece :: pieces) = pieceAddends piece.1 piece.2 ++ chainAddends pieces :=
  flatMap_cons

@[simp] theorem chainOctets_cons :
    chainOctets (piece :: pieces) = piece.2 ++ chainOctets pieces :=
  flatMap_cons

variable {pieces} in
theorem chainAddends_lt : ∀ x ∈ chainAddends pieces, x.value < 2 ^ 32 := by
  intro x hx
  obtain ⟨piece, -, hx⟩ := mem_flatMap.mp hx
  exact pieceAddends_lt x hx

theorem csumChain_eq (sum : Nat) (hsum : sum < 2 ^ 32) :
    csumChain pieces sum = total (2 ^ 32) sum (chainAddends pieces) := by
  induction pieces generalizing sum with
  | nil => rfl
  | cons piece pieces ih =>
    have hpiece := total_lt hsum (@pieceAddends_lt piece.1 piece.2)
    rw [← csumPartial_eq _ hsum] at hpiece
    rw [chainAddends_cons, total_append, ← csumPartial_eq _ hsum]
    exact ih _ hpiece

theorem csumChain_lt : csumChain pieces 0 < 2 ^ 32 := by
  rw [csumChain_eq pieces 0 (by decide)]
  exact total_lt (by decide) (chainAddends_lt)

theorem octetSum_append (odd : Bool) {bytes : List UInt8} (heven : bytes.length % 2 = 0)
    (rest : List UInt8) :
    octetSum odd (bytes ++ rest) = octetSum odd bytes + octetSum odd rest := by
  match bytes with
  | [] => cases odd <;> exact (Nat.zero_add _).symm
  | [a] => cases heven
  | a :: b :: bytes =>
    have heven' : bytes.length % 2 = 0 := by
      simp only [length_cons] at heven
      omega
    have ih := octetSum_append odd heven' rest
    cases odd with
    | false | true =>
      simp only [cons_append, octetSum, ih]
      omega

theorem octetSum_snoc {bytes : List UInt8} {a : UInt8} :
    octetSum false (bytes ++ [a]) =
      octetSum false bytes + a.toNat * (if bytes.length % 2 = 0 then 1 else 2 ^ 8) ∧
    octetSum true (bytes ++ [a]) =
      octetSum true bytes + a.toNat * (if bytes.length % 2 = 0 then 2 ^ 8 else 1) := by
  induction bytes with
  | nil => simp [octetSum]
  | cons b bytes ih =>
    have hparity : (bytes.length + 1) % 2 = 0 ↔ ¬ bytes.length % 2 = 0 := by omega
    simp only [cons_append, octetSum, ih, length_cons, hparity, ite_not]
    omega

/-- All pieces but the last have whole words. -/
def EvenPieces : Prop :=
  ∀ piece ∈ pieces.dropLast, piece.2.length % 2 = 0

/-- What the pieces are together, each of them for itself. -/
def chainSum : Nat :=
  (pieces.map fun piece => octetSum false piece.2).sum

theorem exact_chainAddends :
    exact (chainAddends pieces) ≡ chainSum pieces [MOD 65535] := by
  induction pieces with
  | nil => rfl
  | cons piece pieces ih =>
    rw [chainAddends_cons, exact_append, chainSum, map_cons, sum_cons]
    exact (exact_pieceAddends piece.1 piece.2).add ih

theorem chainSum_append (pieces' : List (Nat × List UInt8)) :
    chainSum (pieces ++ pieces') = chainSum pieces + chainSum pieces' := by
  rw [chainSum, map_append, sum_append, chainSum, chainSum]

theorem chainSum_cons :
    chainSum (piece :: pieces) = octetSum false piece.2 + chainSum pieces := by
  rw [chainSum, map_cons, sum_cons, chainSum]

/-- The additions are zero together just if the octets are. -/
theorem chainSum_le_exact :
    chainSum pieces ≤ exact (chainAddends pieces) ∧
      exact (chainAddends pieces) ≤ 2 ^ 16 * chainSum pieces := by
  induction pieces with
  | nil => exact ⟨Nat.le_refl 0, Nat.le_refl 0⟩
  | cons piece pieces ih =>
    have hle := octetSum_le_exact piece.1 piece.2
    have hge := exact_pieceAddends_le piece.1 piece.2
    rw [chainAddends_cons, exact_append, chainSum_cons]
    omega

variable {pieces} in
theorem chainSum_eq (heven : EvenPieces pieces) :
    chainSum pieces = octetSum false (chainOctets pieces) := by
  induction pieces with
  | nil => rfl
  | cons piece pieces ih =>
    rw [chainSum, map_cons, sum_cons, chainOctets_cons]
    cases pieces with
    | nil =>
      simp [chainOctets]
    | cons next pieces =>
      obtain ⟨hfirst, heven⟩ := forall_mem_cons.mp heven
      rw [octetSum_append false hfirst, ← ih heven]
      rfl

def chainLost : Nat :=
  lost (2 ^ 32) 0 (chainAddends pieces)

theorem csumChain_add_lost :
    csumChain pieces 0 + chainLost pieces ≡ chainSum pieces [MOD 65535] := by
  have hlimit : 2 ^ 32 ≡ 1 [MOD 65535] := by decide
  have htotal := total_add_lost hlimit 0 (chainAddends pieces)
  rw [Nat.zero_add] at htotal
  rw [csumChain_eq pieces 0 (by decide)]
  exact htotal.trans (exact_chainAddends pieces)

theorem csumFold_eq_exchanged {sum : Nat} (hsum : sum < 2 ^ 32) :
    csumFold sum = exchanged (missing sum) := by
  rw [csumFold_eq hsum, complement_eq_missing hsum]
  rfl

theorem missing_eq_iff (m n : Nat) :
    missing m = missing n ↔ m ≡ n [MOD 65535] ∧ (m = 0 ↔ n = 0) := by
  unfold missing Nat.ModEq
  split_ifs <;> omega

theorem octetSum_eq_zero_iff (odd : Bool) (bytes : List UInt8) :
    octetSum odd bytes = 0 ↔ ∀ b ∈ bytes, b = 0 := by
  have hoctet (b : UInt8) : b.toNat = 0 ↔ b = 0 := UInt8.toNat_inj (b := 0)
  induction bytes generalizing odd with
  | nil => cases odd <;> simp [octetSum]
  | cons a rest ih =>
    cases odd with
    | false | true => simp [octetSum, ih, hoctet]

variable {pieces}

/-! ### Pieces that lose no carry -/

/-- No carry is lost: each word of 8 or 16 bits fits in the register after the words before
it. What these leave there is told by their sum, and which words there are by the
addresses. -/
def NoCarryLost (pieces : List (Nat × List UInt8)) : Prop :=
  CarriesKept (2 ^ 32) 0 (chainAddends pieces)

instance : Decidable (NoCarryLost pieces) :=
  inferInstanceAs (Decidable (CarriesKept _ _ _))

theorem chainLost_eq_zero_iff (pieces : List (Nat × List UInt8)) :
    chainLost pieces = 0 ↔ NoCarryLost pieces := by
  have hiff := lost_eq_zero_iff (n := 0) (by decide : 1 < 2 ^ 32) (@chainAddends_lt pieces)
  rwa [register_zero] at hiff

theorem noCarryLost_of_aligned
    (h : ∀ piece ∈ pieces, piece.1 % 4 = 0 ∧ piece.2.length % 4 = 0) : NoCarryLost pieces := by
  refine carriesKept_of_carried 0 fun x hx => ?_
  obtain ⟨piece, hpiece, hx⟩ := mem_flatMap.mp hx
  exact pieceAddends_carried (h piece hpiece).1 (h piece hpiece).2 x hx

/-- Only the first and the last words of a piece may lose their carries. -/
theorem chainLost_le (pieces : List (Nat × List UInt8)) : chainLost pieces ≤ 4 * pieces.length := by
  refine Nat.le_trans (lost_le_countP _ _) ?_
  induction pieces with
  | nil => exact Nat.le_refl 0
  | cons piece pieces ih =>
    have hpiece := countP_pieceAddends piece.1 piece.2
    rw [chainAddends_cons, countP_append, length_cons]
    omega

theorem csumChain_eq_zero_iff (h : NoCarryLost pieces) :
    csumChain pieces 0 = 0 ↔ chainSum pieces = 0 := by
  have htotal := total_eq_register (n := 0) (by decide : 1 < 2 ^ 32) chainAddends_lt h
  rw [register_zero, Nat.zero_add] at htotal
  have hle := chainSum_le_exact pieces
  rw [csumChain_eq pieces 0 (by decide), htotal, register_eq_zero_iff]
  omega

/-- A last octet is padded with zero. -/
def padded (bytes : List UInt8) : List UInt8 :=
  if bytes.length % 2 = 0 then bytes else bytes ++ [0]

/-- The Internet checksum of the octets of some pieces. -/
def piecesChecksum (pieces : List (Nat × List UInt8)) : Nat :=
  internetChecksum (pieces.flatMap fun piece => padded piece.2)

theorem octetSum_padded_append (bytes rest : List UInt8) :
    octetSum false (padded bytes ++ rest) = octetSum false bytes + octetSum false rest := by
  unfold padded
  split_ifs with heven
  · exact octetSum_append false heven rest
  · have hlength : (bytes ++ [0]).length % 2 = 0 := by
      rw [length_append, length_singleton]
      omega
    rw [octetSum_append false hlength, octetSum_snoc.1, UInt8.toNat_zero, Nat.zero_mul,
      Nat.add_zero]

theorem piecesChecksum_eq (pieces : List (Nat × List UInt8)) :
    piecesChecksum pieces = exchanged (missing (chainSum pieces)) := by
  rw [piecesChecksum, internetChecksum_eq]
  congr 2
  induction pieces with
  | nil => rfl
  | cons piece pieces ih => rw [flatMap_cons, octetSum_padded_append, ih, chainSum_cons]

theorem csumFold_csumChain_of_noCarryLost (h : NoCarryLost pieces) :
    csumFold (csumChain pieces 0) = piecesChecksum pieces := by
  have hsum := csumChain_add_lost pieces
  rw [(chainLost_eq_zero_iff pieces).mpr h, Nat.add_zero] at hsum
  rw [csumFold_eq_exchanged (csumChain_lt pieces), piecesChecksum_eq]
  exact congrArg exchanged ((missing_eq_iff _ _).mpr ⟨hsum, csumChain_eq_zero_iff h⟩)

theorem piecesChecksum_of_even (heven : EvenPieces pieces) :
    piecesChecksum pieces = internetChecksum (chainOctets pieces) := by
  rw [piecesChecksum_eq, internetChecksum_eq, chainSum_eq heven]

theorem piecesChecksum_eq_zero_iff (pieces : List (Nat × List UInt8)) :
    piecesChecksum pieces = 0 ↔ chainSum pieces ≡ 0 [MOD 65535] ∧ chainSum pieces ≠ 0 := by
  have hzero (n : Nat) : exchanged n = 0 ↔ n = 0 := by
    unfold exchanged
    omega
  rw [piecesChecksum_eq, hzero]
  unfold missing Nat.ModEq
  grind

/-- The carries that a few pieces can lose are too few to go unnoticed in a sum that should
be zero. -/
theorem noCarryLost_of_fold_eq_zero (hlen : pieces.length < 2 ^ 13)
    (hsum : chainSum pieces ≡ 0 [MOD 65535]) (hfold : csumFold (csumChain pieces 0) = 0) :
    NoCarryLost pieces := by
  have hlost := chainLost_le pieces
  have hzero := ((csumFold_eq_zero_iff (csumChain_lt pieces)).mp hfold).1
  have hnone := (hzero.symm.add_right _).trans ((csumChain_add_lost pieces).trans hsum)
  rw [Nat.zero_add] at hnone
  exact (chainLost_eq_zero_iff _).mp (Nat.ModEq.eq_of_lt_of_lt hnone (by omega) (by decide))

/-! ### Both checksums -/

/-- For every way to cut octets into pieces, `csum_fold` of `csum_partial` is the Internet
checksum just if the number of lost carries is a multiple of 65535, and the register
is zero only for zeros. -/
theorem csumFold_csumChain_iff {pieces : List (Nat × List UInt8)} (heven : EvenPieces pieces) :
    (csumFold (csumChain pieces 0) = internetChecksum (chainOctets pieces) ↔
      chainLost pieces ≡ 0 [MOD 65535] ∧
        (csumChain pieces 0 = 0 → ∀ b ∈ chainOctets pieces, b = 0)) ∧
    (chainLost pieces = 0 →
      csumFold (csumChain pieces 0) = internetChecksum (chainOctets pieces)) := by
  have hsum := csumChain_add_lost pieces
  have hzeros : chainSum pieces = 0 → csumChain pieces 0 = 0 := fun h => by
    have hle := (chainSum_le_exact pieces).2
    rw [csumChain_eq pieces 0 (by decide)]
    exact total_eq_zero (by decide) (by omega)
  refine ⟨?_, fun hlost => ?_⟩
  · have hinj : exchanged (missing (csumChain pieces 0)) = exchanged (missing (chainSum pieces)) ↔
        missing (csumChain pieces 0) = missing (chainSum pieces) :=
      ⟨exchanged_injective (missing_lt _) (missing_lt _), congrArg exchanged⟩
    rw [csumFold_eq_exchanged (csumChain_lt pieces), ← piecesChecksum_of_even heven,
      piecesChecksum_eq, hinj, missing_eq_iff, ← octetSum_eq_zero_iff false, ← chainSum_eq heven]
    refine and_congr ⟨fun h => ?_, fun h => ?_⟩ ⟨Iff.mp, fun h => ⟨h, hzeros⟩⟩
    · -- the carries are what the two sums differ by
      exact Nat.ModEq.add_left_cancel' _ (hsum.trans h.symm)
    · exact (h.symm.add_left (csumChain pieces 0)).trans hsum
  · rw [← piecesChecksum_of_even heven]
    exact csumFold_csumChain_of_noCarryLost ((chainLost_eq_zero_iff pieces).mp hlost)

/-- A piece at an odd address, and one at a multiple of two. -/
def twoPieces : List (Nat × List UInt8) :=
  [(1, [0x45, 0xff, 0xff, 0x14, 0xfe, 0x45]), (6, [0x40, 0x11, 0xc8])]

theorem csumFold_csumChain_twoPieces :
    EvenPieces twoPieces ∧ csumFold (csumChain twoPieces 0) =
      internetChecksum [0x45, 0xff, 0xff, 0x14, 0xfe, 0x45, 0x40, 0x11, 0xc8] := by
  have heven : EvenPieces twoPieces := by
    intro piece hpiece
    rw [mem_singleton.mp hpiece]
    rfl
  exact ⟨heven, (csumFold_csumChain_iff heven).2 (by decide)⟩

/-- The carry of the last two of six octets is lost. -/
theorem csumFold_carry_lost :
    EvenPieces [(0, List.replicate 6 0xff)] ∧
      csumFold (csumChain [(0, List.replicate 6 0xff)] 0) = 0x0100 ∧
      internetChecksum (chainOctets [(0, List.replicate 6 0xff)]) = 0 := by
  exact ⟨forall_mem_nil _, by decide, by decide⟩

end Dnt
