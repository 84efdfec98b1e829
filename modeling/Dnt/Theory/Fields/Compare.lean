import Dnt.Core.ConfPacket
import Dnt.Theory.Fields.Write

/-!
# Matches, Bit by Bit

A match compares the bits of a field with those of a constant, whichever comparator was
chosen for it. The number of bits is that of the constant. For an address with a prefix
length these are the first bits of the field.

## Main definitions

* `ConstantBits`: The bits of a constant: those of a number, or the first of an address.
* `MadeFor`: A match is made for a condition, with the bits of its constant.

## Theorems

* `parseMatchLine_compares`: A match of a line holds for the packets whose field has these
  bits, and for no others.
-/

namespace Dnt

variable {line : List Char} {n idx num : Nat} {f : ProtocolField} {proto : ProtocolID}
  {label string : String} {lib : TextLibrary}

open Bits

variable {c : FieldComparator} {h : HeaderDescriptor} {field : HeaderField} {m : HeaderMatch}
  {headers : List HeaderDescriptor} {s s' : MatchState} {name stream token : String}
  {pton : String → Option (Octets n)} {v value : Value}

open List

theorem fieldBit_eq (p : Packet) (field : HeaderField) (k : Nat) :
    fieldBit p field k = bit (hdrData field p) (field.bitoffset % 8 + k) := by
  have hoctet : (fieldStart p field + k) / 8 = headerStart p field.headerIdx +
      field.bitoffset / 8 + (field.bitoffset % 8 + k) / 8 := by
    unfold fieldStart
    omega
  have hbit : (fieldStart p field + k) % 8 = (field.bitoffset % 8 + k) % 8 := by
    unfold fieldStart
    omega
  rw [fieldBit, packetBit, bit, hoctet, hbit]
  rfl

theorem valueBit_eq (value : Value) (k : Nat) :
    valueBit value k = bit (matchData value) (value.bitoffset % 8 + k) := by
  have hoctet : (value.bitoffset + k) / 8 =
      value.bitoffset / 8 + (value.bitoffset % 8 + k) / 8 := by omega
  have hbit : (value.bitoffset + k) % 8 = (value.bitoffset % 8 + k) % 8 := by omega
  rw [valueBit, bit, hoctet, hbit]
  rfl

/-! ### The comparators -/

section Comparators

variable {field : HeaderField} {value : Value} (p : Packet)

theorem agree_iff (hoffset : value.bitoffset % 8 = field.bitoffset % 8) :
    Agree (hdrData field p) (matchData value) (field.bitoffset % 8)
        (field.bitoffset % 8 + field.bitcount) ↔
      ∀ k < field.bitcount, fieldBit p field k = valueBit value k := by
  constructor
  · intro h k hk
    rw [fieldBit_eq, valueBit_eq, hoffset]
    exact h _ (Nat.le_add_right _ _) (by omega)
  · intro h i hlo hlt
    obtain ⟨k, rfl⟩ := Nat.exists_eq_add_of_le hlo
    have hbit := h k (by omega)
    rwa [fieldBit_eq, valueBit_eq, hoffset] at hbit

theorem compareBytes_iff (hcount : value.bitcount = field.bitcount)
    (hoffset : field.bitoffset % 8 = 0) (hbytes : field.bitcount % 8 = 0) :
    compareBytes field value p = true ↔
      Agree (hdrData field p) (matchData value) (field.bitoffset % 8)
        (field.bitoffset % 8 + field.bitcount) := by
  have hloop := agree_octets (hdrData field p) (matchData value) 0 (field.bitcount / 8)
  have hlast : 8 * (0 + field.bitcount / 8) = field.bitcount := by omega
  rw [hlast, Nat.mul_zero] at hloop
  rw [hoffset, Nat.zero_add, ← hloop, compareBytes, hcount]
  simp only [all_eq_true, mem_range, beq_iff_eq, Nat.zero_add]

theorem first_octet_iff (value : Value) {count : Nat} (hoctet : field.bitoffset % 8 + count ≤ 8) :
    ((hdrData field p 0 &&& bitMask count (8 - field.bitoffset % 8 - count)) ==
        (matchData value 0 &&& bitMask count (8 - field.bitoffset % 8 - count))) = true ↔
      Agree (hdrData field p) (matchData value) (field.bitoffset % 8)
        (field.bitoffset % 8 + count) := by
  have hmask (k : Nat) (hk : k < 8) :
      octetBit (bitMask count (8 - field.bitoffset % 8 - count)) k =
        decide (field.bitoffset % 8 ≤ k ∧ k < field.bitoffset % 8 + count) := by
    have hrange := octetBit_mask (Nat.le_add_right (field.bitoffset % 8) count) hoctet hk
    rwa [Nat.add_sub_cancel_left, ← Nat.sub_sub] at hrange
  have h := agree_masked (hdrData field p) (matchData value) hoctet hmask 0
  rw [Nat.mul_zero, Nat.zero_add, Nat.zero_add] at h
  rw [beq_iff_eq, h]

theorem compareBits_iff (hoctet : field.bitoffset % 8 + field.bitcount ≤ 8) :
    compareBits field value p = true ↔
      Agree (hdrData field p) (matchData value) (field.bitoffset % 8)
        (field.bitoffset % 8 + field.bitcount) :=
  first_octet_iff p value hoctet

theorem compareGeneric_iff (hoctets : 8 < field.bitoffset % 8 + field.bitcount) :
    compareGeneric field value p = true ↔
      Agree (hdrData field p) (matchData value) (field.bitoffset % 8)
        (field.bitoffset % 8 + field.bitcount) := by
  have hmin : min field.bitcount (8 - field.bitoffset % 8) = 8 - field.bitoffset % 8 := by omega
  have hoctet : field.bitoffset % 8 + (8 - field.bitoffset % 8) = 8 := by omega
  have hfirst := first_octet_iff p value (Nat.le_of_eq hoctet)
  rw [hoctet] at hfirst
  simp only [compareGeneric, hmin, Bool.and_eq_true]
  rw [hfirst]
  generalize hlen : (field.bitcount - (8 - field.bitoffset % 8)) / 8 = len
  generalize hlast : field.bitcount - (8 - field.bitoffset % 8) - len * 8 = last
  have hend : field.bitoffset % 8 + field.bitcount = 8 * (1 + len) + last := by omega
  have hloop := agree_octets (hdrData field p) (matchData value) 1 len
  have hmask (k : Nat) (hk : k < 8) : octetBit (bitMask last (8 - last)) k =
      decide (0 ≤ k ∧ k < last) := octetBit_mask (Nat.zero_le last) (by omega) hk
  have hbits := agree_masked (hdrData field p) (matchData value) (by omega) hmask (1 + len)
  have hfront := agree_append (hdrData field p) (matchData value) (a := field.bitoffset % 8)
    (b := 8) (c := 8 * (1 + len) + last) (by omega) (by omega)
  have hback := agree_append (hdrData field p) (matchData value) (a := 8 * 1)
    (b := 8 * (1 + len)) (c := 8 * (1 + len) + last) (by omega) (by omega)
  rw [hend, hfront, hback, ← hloop, and_assoc]
  refine and_congr_right' (and_congr ?_ ?_)
  · simp only [all_eq_true, mem_range, beq_iff_eq]
  · rw [Nat.add_zero] at hbits
    rw [Bool.or_eq_true, beq_iff_eq, beq_iff_eq, hbits]
    constructor
    · rintro (rfl | h)
      · exact fun i hlo hlt => absurd hlt (by omega)
      · exact h
    · exact Or.inr

theorem compareField_iff (hc : headerGetFieldComparator field value = some c) :
    compareField c field value p = true ↔
      ∀ k < field.bitcount, fieldBit p field k = valueBit value k := by
  unfold headerGetFieldComparator at hc
  by_cases hcount : value.bitcount = field.bitcount
  · rw [if_neg (not_not.mpr hcount)] at hc
    by_cases hoffset : value.bitoffset % 8 = field.bitoffset % 8
    · rw [if_neg (not_not.mpr hoffset)] at hc
      rw [← agree_iff p hoffset]
      by_cases hbytes : field.bitoffset % 8 = 0 ∧ field.bitcount % 8 = 0
      · rw [if_pos hbytes] at hc
        cases hc
        exact compareBytes_iff p hcount hbytes.1 hbytes.2
      rw [if_neg hbytes] at hc
      by_cases hbits : field.bitoffset % 8 + field.bitcount ≤ 8
      · rw [if_pos hbits] at hc
        cases hc
        exact compareBits_iff p hbits
      · rw [if_neg hbits] at hc
        cases hc
        exact compareGeneric_iff p (Nat.lt_of_not_le hbits)
    · rw [if_pos hoffset] at hc
      cases hc
  · rw [if_pos hcount] at hc
    cases hc

end Comparators

theorem headerGetFieldComparator_isSome : (headerGetFieldComparator field value).isSome = true ↔
      value.bitcount = field.bitcount ∧ value.bitoffset % 8 = field.bitoffset % 8 := by
  unfold headerGetFieldComparator
  grind

theorem headerGetFieldWriter_isSome : (headerGetFieldWriter field value).isSome = true ↔
      value.bitcount = field.bitcount ∧ value.bitoffset % 8 = field.bitoffset % 8 := by
  unfold headerGetFieldWriter
  grind

theorem compareField_execute {w : FieldWriter} (hw : headerGetFieldWriter field value = some w)
    (hc : headerGetFieldComparator field value = some c) (p : Packet) :
    compareField c field value (EditAssign.execute ⟨w, field, .constant value⟩ p) = true := by
  obtain ⟨hcount, hoffset⟩ := headerGetFieldComparator_isSome.mp (Option.isSome_of_eq_some hc)
  have hfit := fitting_ref p hcount hoffset
  obtain ⟨w', hw', hset⟩ := partSet_writeField hfit hcount hoffset
  cases hw.symm.trans hw'
  rw [compareField_iff _ hc]
  intro k hk
  rw [← bit_ref value p k]
  exact hset.fieldSet.bits k hk

/-! ### Numbers -/

theorem numberOctets_getElem? (num numBits offset n i : Nat) (hi : i < n) :
    (numberOctets num numBits offset n)[i]? = some
      (if offset + 8 * i < numBits then UInt8.ofNat (num >>> (offset + 8 * i)) else 0) := by
  induction n generalizing offset i with
  | zero => omega
  | succ n ih =>
    cases i with
    | zero => rfl
    | succ i =>
      have hoffset : offset + 8 * (i + 1) = offset + 8 + 8 * i := by omega
      rw [hoffset]
      exact ih (offset + 8) i (by omega)

theorem length_numberOctets (num numBits offset n : Nat) :
    (numberOctets num numBits offset n).length = n := by
  induction n generalizing offset with
  | zero => rfl
  | succ n ih => exact congrArg Nat.succ (ih _)

/-- The bits of a number that is put into octets with `offset` bits left at the end. -/
theorem octetBit_number {numBits offset : Nat} (hnum : num < 2 ^ numBits) (hoffset : offset ≤ 8)
    {j k : Nat} (hj : j ≤ n) (hk : k < 8) (hlow : offset ≤ 8 * j + (7 - k)) : octetBit
        ((UInt8.ofNat (num <<< offset) :: numberOctets num numBits (8 - offset) n).getD j 0) k =
      num.testBit (8 * j + (7 - k) - offset) := by
  cases j with
  | zero =>
    rw [getD_cons_zero, octetBit_ofNat _ hk, Nat.testBit_shiftLeft,
      decide_eq_true (by omega), Bool.true_and, Nat.mul_zero, Nat.zero_add]
  | succ j =>
    have hget := numberOctets_getElem? num numBits (8 - offset) n j (by omega)
    have hindex : 8 * (j + 1) + (7 - k) - offset = 8 - offset + 8 * j + (7 - k) := by omega
    rw [getD_cons_succ, getD_eq_getElem?_getD, hget, Option.getD_some, hindex]
    by_cases hlt : 8 - offset + 8 * j < numBits
    · rw [if_pos hlt, octetBit_ofNat _ hk, Nat.testBit_shiftRight]
    · -- the number has no bits there
      have hpow : 2 ^ numBits ≤ 2 ^ (8 - offset + 8 * j + (7 - k)) :=
        Nat.pow_le_pow_right (by decide) (by omega)
      rw [if_neg hlt, octetBit_zero, Nat.testBit_lt_two_pow (Nat.lt_of_lt_of_le hnum hpow)]

/-- Every bit of the buffer: behind the field there are zeros, and the bits of the number in
front of that. -/
theorem bit_prepareConstantNumber {bitoffset bitcount : Nat}
    (h : prepareConstantNumber bitoffset bitcount num = some v) {k : Nat}
    (hk : k < 8 * ((bitoffset % 8 + bitcount + 7) / 8)) :
    bit (fun i => v.value.getD i 0) k = if k < bitoffset % 8 + bitcount then
      num.testBit (bitoffset % 8 + bitcount - 1 - k) else false := by
  unfold prepareConstantNumber at h
  by_cases hbits : num.log2 + 1 > bitcount
  · rw [if_pos hbits] at h
    cases h
  rw [if_neg hbits, Option.some.injEq] at h
  subst h
  simp only [bit]
  generalize hlen : (bitoffset % 8 + bitcount + 7) / 8 = len at hk ⊢
  generalize hoffset : len * 8 - (bitoffset % 8 + bitcount) = offset
  have hlength : (UInt8.ofNat (num <<< offset) ::
      numberOctets num (num.log2 + 1) (8 - offset) (len - 1)).length = len := by
    rw [length_cons, length_numberOctets]
    omega
  have hreverse : ∀ (l : List UInt8) (i : Nat), i < l.length →
      l.reverse.getD i 0 = l.getD (l.length - 1 - i) 0 := by grind
  rw [hreverse _ _ (by omega), hlength]
  by_cases hfield : k < bitoffset % 8 + bitcount
  · rw [if_pos hfield, octetBit_number Nat.lt_log2_self (by omega) (by omega) (by omega) (by omega)]
    congr 1
    omega
  · -- the last octet, where the number was moved up
    have hlast : len - 1 - k / 8 = 0 := by omega
    rw [if_neg hfield, hlast, getD_cons_zero, octetBit_ofNat _ (by omega), Nat.testBit_shiftLeft,
      decide_eq_false (by omega), Bool.false_and]

theorem valueBit_prepareConstantNumber {bitoffset bitcount : Nat}
    (h : prepareConstantNumber bitoffset bitcount num = some v) :
    v.bitoffset = bitoffset % 8 ∧ v.bitcount = bitcount ∧ num < 2 ^ bitcount ∧
      ∀ k < bitcount, valueBit v k = num.testBit (bitcount - 1 - k) := by
  have hbit := @bit_prepareConstantNumber _ _ _ _ h
  unfold prepareConstantNumber at h
  by_cases hbits : num.log2 + 1 > bitcount
  · rw [if_pos hbits] at h
    cases h
  rw [if_neg hbits, Option.some.injEq] at h
  subst h
  have hnum : num < 2 ^ (num.log2 + 1) := Nat.lt_log2_self
  refine ⟨rfl, rfl, Nat.lt_of_lt_of_le hnum (Nat.pow_le_pow_right (by decide) (by omega)), ?_⟩
  intro k hk
  refine (hbit (k := bitoffset % 8 + k) (by omega)).trans ?_
  rw [if_pos (by omega)]
  congr 1
  omega

/-! ### Addresses -/

theorem bit_zeroSuffix (octets : List UInt8) (n k : Nat) (hk : k < n) :
    bit (fun i => (zeroSuffix octets n).getD i 0) k = bit (fun i => octets.getD i 0) k := by
  induction octets generalizing n k with
  | nil => rfl
  | cons a rest ih =>
    unfold zeroSuffix
    by_cases hwhole : n ≥ 8
    · rw [if_pos hwhole]
      by_cases hfirst : k < 8
      · have hzero : k / 8 = 0 := by omega
        simp only [bit, hzero, getD_cons_zero]
      · obtain ⟨j, rfl⟩ := Nat.exists_eq_add_of_le (Nat.not_lt.mp hfirst)
        have hdiv : (8 + j) / 8 = j / 8 + 1 := by omega
        have hmod : (8 + j) % 8 = j % 8 := by omega
        have hrest := ih (n - 8) j (by omega)
        simp only [bit, hdiv, hmod, getD_cons_succ] at hrest ⊢
        exact hrest
    · have hzero : k / 8 = 0 := by omega
      have hmod : k % 8 = k := by omega
      -- the mask keeps the first `n` bits of the octet
      have hmask : octetBit (UInt8.ofNat (255 * 2 ^ (8 - n))) k = true := by
        have hall : ∀ n < 8, ∀ k < n, octetBit (UInt8.ofNat (255 * 2 ^ (8 - n))) k = true := by
          decide
        exact hall n (by omega) k hk
      rw [if_neg hwhole, if_neg (by omega)]
      simp only [bit, hzero, hmod, getD_cons_zero, octetBit_and, hmask, Bool.and_true]

def addressOctets (lib : TextLibrary) (type : ProtocolFieldType) (string : String) :
    Option (List UInt8) :=
  match type with
  | .macAddress => (lib.etherPton (addressText string)).map Subtype.val
  | .ipv4Address => (lib.inetPton (addressText string)).map Subtype.val
  | .ipv6Address => (lib.inetPton6 (addressText string)).map Subtype.val
  | _ => none

/-- A text has this prefix length for an address of `maxlen` bits. -/
def HasPrefixLength (lib : TextLibrary) (maxlen : Nat) (string : String) (n : Nat) : Prop :=
  n ≤ maxlen ∧ ((prefixText string = none ∧ n = maxlen) ∨
    ∃ text, prefixText string = some text ∧ lib.scanUnsigned text = some n)

theorem hasPrefixLength_of_read {maxlen : Nat}
    (h : readPrefixLength lib label maxlen string = .ok n) :
    HasPrefixLength lib maxlen string n := by
  unfold readPrefixLength at h
  cases htext : prefixText string with
  | none =>
    rw [htext] at h
    cases h
    exact ⟨Nat.le_refl _, .inl ⟨htext, rfl⟩⟩
  | some text =>
    rw [htext] at h
    obtain ⟨m, hm, h⟩ := bind_eq_ok.mp h
    obtain ⟨_, hle, h⟩ := bind_eq_ok.mp h
    cases h
    rw [orThrow_eq_ok] at hm
    rw [require_eq_ok] at hle
    exact ⟨hle, .inr ⟨text, htext, hm⟩⟩

/-- An address is as long as its field, and its prefix has the bits of the address. -/
theorem valueBit_readAddress {val : Value}
    (h : readAddress lib label name n pton val string = .ok v) :
    ∃ octets : Octets n, pton (addressText string) = some octets ∧ val.bitcount = n * 8 ∧
      HasPrefixLength lib val.bitcount string v.bitcount ∧
      ∀ k < v.bitcount, valueBit v k = bit (fun i => octets.val.getD i 0) k := by
  obtain ⟨_, hfits, h⟩ := bind_eq_ok.mp h
  obtain ⟨m, hm, h⟩ := bind_eq_ok.mp h
  obtain ⟨octets, hoctets, h⟩ := bind_eq_ok.mp h
  cases h
  rw [require_eq_ok] at hfits
  rw [orThrow_eq_ok] at hoctets
  have hlength := hasPrefixLength_of_read hm
  rw [← hfits.2] at hlength
  refine ⟨octets, hoctets, hfits.2, hlength, ?_⟩
  intro k hk
  rw [valueBit, Nat.zero_add]
  exact bit_zeroSuffix octets.val m k hk

/-! ### Constants of all types -/

/-- The number that a text stands for, in a field of a protocol. -/
def constantNumber (lib : TextLibrary) (proto : ProtocolID) (f : ProtocolField) (string : String) :
    Option Nat :=
  if f.type = .nextHeader ∧ protocolTypeValid string = true then
    (protocolFromId proto).getNexthdr.bind fun getNexthdr => getNexthdr (protocolIdFromType string)
  else (readNumber lib f.bitcount string).toOption

/-- The bits of a constant for a field: those of a number, or the first ones of an address. -/
def ConstantBits (lib : TextLibrary) (proto : ProtocolID) (f : ProtocolField) (string : String)
    (v : Value) : Prop :=
  (∃ num, constantNumber lib proto f string = some num ∧ num < 2 ^ f.bitcount ∧
      v.bitcount = f.bitcount ∧ ∀ k < f.bitcount, valueBit v k = num.testBit (f.bitcount - 1 - k)) ∨
    ∃ octets, addressOctets lib f.type string = some octets ∧ f.bitcount = octets.length * 8 ∧
      HasPrefixLength lib f.bitcount string v.bitcount ∧
      ∀ k < v.bitcount, valueBit v k = bit (fun i => octets.getD i 0) k

theorem constantBits_number {e : CompileError} (hnum : constantNumber lib proto f string = some num)
    (h : numberConstant ⟨[], f.bitoffset, f.bitcount⟩ num e = .ok v) :
    ConstantBits lib proto f string v := by
  obtain ⟨_, hcount, hlt, hbits⟩ :=
    valueBit_prepareConstantNumber ((orThrow_eq_ok).mp h)
  exact .inl ⟨num, hnum, hlt, hcount, hbits⟩

theorem constantBits_readNumberConstant
    (hname : ¬(f.type = .nextHeader ∧ protocolTypeValid string = true))
    (h : readNumberConstant lib ⟨[], f.bitoffset, f.bitcount⟩ string = .ok v) :
    ConstantBits lib proto f string v := by
  obtain ⟨num, hnum, h⟩ := bind_eq_ok.mp h
  refine constantBits_number ?_ h
  rw [constantNumber, if_neg hname, hnum]
  rfl

theorem constantBits_readAddress
    (haddress : addressOctets lib f.type string = (pton (addressText string)).map Subtype.val)
    (h : readAddress lib label name n pton ⟨[], f.bitoffset, f.bitcount⟩ string = .ok v) :
    ConstantBits lib proto f string v := by
  obtain ⟨octets, hoctets, hcount, hlength, hbits⟩ := valueBit_readAddress h
  rw [hoctets] at haddress
  refine .inr ⟨octets.val, haddress, ?_, hlength, hbits⟩
  rw [octets.property]
  exact hcount

theorem constantBits_readConstant
    (h : readConstant lib ⟨[], f.bitoffset, f.bitcount⟩ proto f.type string = .ok v) :
    ConstantBits lib proto f string v := by
  have hnumber (htype : f.type ≠ .nextHeader)
      (h : readNumberConstant lib ⟨[], f.bitoffset, f.bitcount⟩ string = .ok v) :
      ConstantBits lib proto f string v :=
    constantBits_readNumberConstant (fun hname => htype hname.1) h
  cases htype : f.type with
  | unknown =>
    rw [htype] at h
    cases h
  | macAddress | ipv4Address | ipv6Address =>
    rw [htype] at h
    exact constantBits_readAddress (by rw [htype]; rfl) h
  | nextHeader =>
    rw [htype] at h
    unfold readConstant at h
    by_cases hvalid : protocolTypeValid string = true
    · rw [if_pos hvalid] at h
      obtain ⟨getNexthdr, hget, h⟩ := bind_eq_ok.mp h
      obtain ⟨nexthdr, hnext, h⟩ := bind_eq_ok.mp h
      rw [orThrow_eq_ok] at hget hnext
      refine constantBits_number ?_ h
      rw [constantNumber, if_pos ⟨htype, hvalid⟩, hget]
      exact hnext
    · rw [if_neg hvalid] at h
      exact constantBits_readNumberConstant (fun hname => hvalid hname.2) h
  | number | tsnSeq | srv6Seq | tsnTstamp | ttl | checksum =>
    rw [htype] at h
    exact hnumber (by rw [htype]; decide) h

theorem ConstantBits.bitcount_le (h : ConstantBits lib proto f string v) :
    v.bitcount ≤ f.bitcount := by
  rcases h with ⟨_, _, _, hcount, _⟩ | ⟨_, _, _, hlength, _⟩
  · exact Nat.le_of_eq hcount
  · exact hlength.1

/-! ### Match lines -/

/-- A word of a match line that is a condition for a field of a header. -/
structure Condition (line : List Char) (proto : ProtocolID) (string : String) (f : ProtocolField)
    (neg : Bool) : Prop where
  word : ∃ stage ∈ stages line, ∃ token ∈ words stage, ∃ key,
    parseAssignment token = some (key, string) ∧
      protocolGetFieldByName proto (matchKey key).1 = some f ∧ neg = (matchKey key).2

/-- A match is made for a condition, with the bits of its constant. -/
structure MadeFor (lib : TextLibrary) (line : List Char) (proto : ProtocolID) (idx : Nat)
    (m : HeaderMatch) (f : ProtocolField) (string : String) : Prop where
  condition : Condition line proto string f m.neg
  field : m.field = ⟨idx, f.bitoffset, m.value.bitcount⟩
  bits : ConstantBits lib proto f string m.value
  comparator : headerGetFieldComparator m.field m.value = some m.comparator

theorem madeFor_readMatch (hword : ∃ stage ∈ stages line, token ∈ words stage)
    (hread : readMatch lib stream h idx token = .ok m) :
    ∃ f string, MadeFor lib line h.id idx m f string := by
  obtain ⟨stage, hstage, htoken⟩ := hword
  obtain ⟨⟨key, string⟩, hparse, hread⟩ := bind_eq_ok.mp hread
  obtain ⟨f, hf, hread⟩ := bind_eq_ok.mp hread
  obtain ⟨value, hvalue, hread⟩ := bind_eq_ok.mp hread
  obtain ⟨c, hc, hread⟩ := bind_eq_ok.mp hread
  cases hread
  rw [orThrow_eq_ok] at hparse hf hc
  exact ⟨f, string, ⟨⟨stage, hstage, token, htoken, key, hparse, hf, rfl⟩⟩, rfl,
    constantBits_readConstant hvalue, hc⟩

def AllMade (lib : TextLibrary) (line : List Char) (headers : List HeaderDescriptor) : Prop :=
  ∀ idx h, headers[idx]? = some h → ∀ m ∈ h.matchList, ∃ f string,
    MadeFor lib line h.id idx m f string

theorem AllMade.set (hall : AllMade lib line headers) {ms : List HeaderMatch}
    (hms : ∀ m ∈ ms, ∃ f string, MadeFor lib line h.id idx m f string) :
    AllMade lib line (headers.set idx { h with matchList := ms }) := by
  intro j hj hget m hm
  rw [getElem?_set] at hget
  by_cases heq : idx = j
  · subst heq
    rw [if_pos rfl] at hget
    split_ifs at hget with hlt
    cases hget
    exact hms m hm
  · rw [if_neg heq] at hget
    exact hall j hj hget m hm

theorem allMade_processMatchToken (hword : ∃ stage ∈ stages line, token ∈ words stage)
    (hs : AllMade lib line s.headers) (h : processMatchToken lib s token = .ok s') :
    AllMade lib line s'.headers := by
  unfold processMatchToken at h
  cases hcurrent : s.current with
  | none =>
    rw [hcurrent] at h
    obtain ⟨_, _, h⟩ := bind_eq_ok.mp h
    cases h
    exact hs
  | some idx =>
    rw [hcurrent] at h
    obtain ⟨hd, hhd, h⟩ := bind_eq_ok.mp h
    obtain ⟨m, hm, h⟩ := bind_eq_ok.mp h
    cases h
    rw [orThrow_eq_ok] at hhd
    refine hs.set fun m' hm' => ?_
    rcases mem_cons.mp hm' with rfl | hold
    · exact madeFor_readMatch hword hm
    · exact hs idx hd hhd m' hold

theorem allMade_processMatchStage {stage : List Char} (hstage : stage ∈ stages line)
    (hs : AllMade lib line s.headers) (h : processMatchStage lib s stage = .ok s') :
    AllMade lib line s'.headers := by
  obtain ⟨s₁, htokens, h⟩ := (@bind_eq_ok _ _ _ _ _ _).mp h
  obtain ⟨idx, _, h⟩ := (@bind_eq_ok _ _ _ _ _ _).mp h
  obtain ⟨hd, hhd, h⟩ := (@bind_eq_ok _ _ _ _ _ _).mp h
  obtain ⟨_, _, h⟩ := (@bind_eq_ok _ _ _ _ _ _).mp h
  cases h
  rw [orThrow_eq_ok] at hhd
  have hs₁ : AllMade lib line s₁.headers :=
    @foldlM_invariant_mem _ _ _ (fun t => AllMade lib line t.headers) _ (words stage)
      (fun t token htoken t' => allMade_processMatchToken ⟨stage, hstage, htoken⟩) _ s₁ hs htokens
  exact hs₁.set fun m hm => hs₁ idx hd hhd m (mem_reverse.mp hm)

theorem allMade_parseMatchLine {headers' : List HeaderDescriptor}
    (hfresh : ∀ h ∈ headers, h.matchList = [])
    (h : parseMatchLine lib stream headers line = .ok headers') : AllMade lib line headers' := by
  obtain ⟨s, hs, h⟩ := bind_eq_ok.mp h
  cases h
  refine foldlM_invariant_mem (fun t stage hstage t' => allMade_processMatchStage hstage) _ ?_ hs
  intro idx hd hget m hm
  rw [hfresh hd (mem_of_getElem? hget)] at hm
  cases hm

theorem MadeFor.compareField_iff (hm : MadeFor lib line proto idx m f string) (p : Packet) :
    compareField m.comparator m.field m.value p = true ↔ ∀ k < m.value.bitcount,
      fieldBit p ⟨idx, f.bitoffset, f.bitcount⟩ k = valueBit m.value k := by
  rw [Dnt.compareField_iff p hm.comparator, hm.field]
  rfl

/-- Every match of a line that is accepted compares the first bits of its field with its
value. These are the bits of the number, or those of the address that the prefix
has. What an assignment has written compares equal. -/
theorem parseMatchLine_compares {lib : TextLibrary} {line : List Char} {stream : String}
    {headers headers' : List HeaderDescriptor} (hfresh : ∀ h ∈ headers, h.matchList = [])
    (h : parseMatchLine lib stream headers line = .ok headers') {idx : Nat} {hd : HeaderDescriptor}
    (hhd : headers'[idx]? = some hd) {m : HeaderMatch} (hm : m ∈ hd.matchList) :
    ∃ f string, Condition line hd.id string f m.neg ∧ m.value.bitcount ≤ f.bitcount ∧
      (∀ p, compareField m.comparator m.field m.value p = true ↔ ∀ k < m.value.bitcount,
        fieldBit p ⟨idx, f.bitoffset, f.bitcount⟩ k = valueBit m.value k) ∧
      ((∃ num, constantNumber lib hd.id f string = some num ∧ num < 2 ^ f.bitcount ∧
          ∀ p, compareField m.comparator m.field m.value p = true ↔ ∀ k < f.bitcount,
            fieldBit p ⟨idx, f.bitoffset, f.bitcount⟩ k = num.testBit (f.bitcount - 1 - k)) ∨
        ∃ octets, addressOctets lib f.type string = some octets ∧
          f.bitcount = octets.length * 8 ∧
          HasPrefixLength lib f.bitcount string m.value.bitcount ∧
          ∀ p, compareField m.comparator m.field m.value p = true ↔ ∀ k < m.value.bitcount,
            fieldBit p ⟨idx, f.bitoffset, f.bitcount⟩ k = bit (fun i => octets.getD i 0) k) ∧
      ∃ w, headerGetFieldWriter m.field m.value = some w ∧ ∀ p,
        compareField m.comparator m.field m.value
          (EditAssign.execute ⟨w, m.field, .constant m.value⟩ p) = true := by
  obtain ⟨f, string, hmade⟩ := allMade_parseMatchLine hfresh h idx hd hhd m hm
  have hcompare := hmade.compareField_iff
  refine ⟨f, string, hmade.condition, hmade.bits.bitcount_le, hcompare, ?_, ?_⟩
  · rcases hmade.bits with ⟨num, hnum, hlt, hcount, hbits⟩ | ⟨octets, hoctets, hlen, hpre, hbits⟩
    · refine .inl ⟨num, hnum, hlt, fun p => ?_⟩
      rw [hcompare p, hcount]
      exact forall₂_congr fun k hk => by rw [hbits k hk]
    · refine .inr ⟨octets, hoctets, hlen, hpre, fun p => ?_⟩
      rw [hcompare p]
      exact forall₂_congr fun k hk => by rw [hbits k hk]
  · -- a writer exists for the same values
    obtain ⟨hcount, hoffset⟩ :=
      headerGetFieldComparator_isSome.mp (Option.isSome_of_eq_some hmade.comparator)
    obtain ⟨w, hw⟩ :=
      Option.isSome_iff_exists.mp (headerGetFieldWriter_isSome.mpr ⟨hcount, hoffset⟩)
    exact ⟨w, hw, fun p => compareField_execute hw hmade.comparator p⟩

def fewTexts : TextLibrary where
  strtoull := fun _ => ⟨0, 0, false⟩
  scanUnsigned := fun string => if string = "12" then some 12 else none
  etherPton := fun _ => none
  inetPton := fun string => if string = "10.17.2.3" then some ⟨[10, 17, 2, 3], rfl⟩ else none
  inetPton6 := fun _ => none

/-- The header of a stream, with the match that its line is read as. -/
def prefixMatched : HeaderDescriptor :=
  ⟨"ip", .ipv4, [⟨⟨0, 128, 12⟩, ⟨[10, 16, 0, 0], 0, 12⟩, .generic, false⟩]⟩

/-- Twelve bits of an IPv4 address. -/
theorem parseMatchLine_compares_twelve_bits :
    parseMatchLine fewTexts "s" [⟨"ip", .ipv4, []⟩] "ip dst=10.17.2.3/12".toList =
        .ok [prefixMatched] ∧
      ∃ f string, Condition "ip dst=10.17.2.3/12".toList .ipv4 string f false ∧ 12 ≤ f.bitcount ∧
        ∀ p, compareField .generic ⟨0, 128, 12⟩ ⟨[10, 16, 0, 0], 0, 12⟩ p = true ↔ ∀ k < 12,
          fieldBit p ⟨0, f.bitoffset, f.bitcount⟩ k = valueBit ⟨[10, 16, 0, 0], 0, 12⟩ k := by
  have hfresh : ∀ h ∈ [HeaderDescriptor.mk "ip" .ipv4 []], h.matchList = [] := by
    intro h hh
    rw [mem_singleton.mp hh]
  have hparse : parseMatchLine fewTexts "s" [⟨"ip", .ipv4, []⟩] "ip dst=10.17.2.3/12".toList =
      .ok [prefixMatched] := by decide
  have hget : [prefixMatched][0]? = some prefixMatched := rfl
  obtain ⟨f, string, hcondition, hle, hcompare, _⟩ :=
    parseMatchLine_compares hfresh hparse hget mem_cons_self
  exact ⟨hparse, f, string, hcondition, hle, hcompare⟩

end Dnt
