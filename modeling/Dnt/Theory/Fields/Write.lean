import Dnt.Library.Bits
import Dnt.Core.HeaderEdit
import Dnt.Core.ConfAssign

/-!
# Assignments, Bit by Bit

All writers go through the octets of the field once, from the first to the last one.
The source may be a field of the same packet. If the two do not share bits, the bits
of the source stay until they have been read.

## Main definitions

* `fieldBit`, `valueBit`: The bits of a field of a packet, and of a value.
* `PartSet`, `FieldSet`: The first bits of a field are set, or all, and no others change.

## Theorems

* `execute_sets`: Whichever writer an assignment uses, the bits of the target field become
  the bits that the source had before, and no other bit of the packet changes.
-/

namespace Dnt

open Function

open Bits

/-- Bit `i` of the buffer of a packet. -/
def packetBit (p : Packet) (i : Nat) : Bool :=
  bit p.buf i

def fieldStart (p : Packet) (field : HeaderField) : Nat :=
  8 * headerStart p field.headerIdx + field.bitoffset

def fieldBit (p : Packet) (field : HeaderField) (k : Nat) : Bool :=
  packetBit p (fieldStart p field + k)

def valueBit (value : Value) (k : Nat) : Bool :=
  bit (fun i => value.value.getD i 0) (value.bitoffset + k)

def ValueRef.bit (value : ValueRef) (p : Packet) (k : Nat) : Bool :=
  octetBit (srcData value p ((value.bitoffset % 8 + k) / 8)) ((value.bitoffset % 8 + k) % 8)

theorem bit_ref (value : Value) (p : Packet) (k : Nat) : value.ref.bit p k = valueBit value k := by
  have hoctet : (value.bitoffset + k) / 8 =
      value.bitoffset / 8 + (value.bitoffset % 8 + k) / 8 := by omega
  have hbit : (value.bitoffset + k) % 8 = (value.bitoffset % 8 + k) % 8 := by omega
  rw [valueBit, Bits.bit, hoctet, hbit]
  rfl

theorem bit_readBytes (source : HeaderField) (p q : Packet) (k : Nat) :
    (readBytes source p).bit q k = packetBit q (fieldStart p source + k) := by
  have hoctet : (fieldStart p source + k) / 8 = headerStart p source.headerIdx +
      source.bitoffset / 8 + source.bitoffset % 8 / 8 + (source.bitoffset % 8 % 8 + k) / 8 := by
    unfold fieldStart
    omega
  have hbit : (fieldStart p source + k) % 8 = (source.bitoffset % 8 % 8 + k) % 8 := by
    unfold fieldStart
    omega
  rw [packetBit, Bits.bit, hoctet, hbit]
  rfl

theorem octetBit_bitMask {bitcount shift : Nat} (h : bitcount + shift ≤ 8) {k : Nat} (hk : k < 8) :
    octetBit (bitMask bitcount shift) k = decide (8 - shift - bitcount ≤ k ∧ k < 8 - shift) := by
  have hall : ∀ bitcount < 9, ∀ shift < 9, bitcount + shift ≤ 8 → ∀ k < 8,
      octetBit (bitMask bitcount shift) k =
        decide (8 - shift - bitcount ≤ k ∧ k < 8 - shift) := by
    decide
  exact hall bitcount (by omega) shift (by omega) h k hk

/-! ### One octet -/

/-- The other bits of the buffer are as they were. -/
def SameOutside (p q : Packet) (first n : Nat) : Prop :=
  ∀ i, i < first ∨ first + n ≤ i → packetBit q i = packetBit p i

/-- The value is not changed by writing to a range of bits. -/
def Steady (value : ValueRef) (p : Packet) (first n : Nat) : Prop :=
  ∀ q, SameOutside p q first n → ∀ k < n, value.bit q k = value.bit p k

/-- The target and the value of a write fit together. -/
structure Fitting (field : HeaderField) (value : ValueRef) (p : Packet) : Prop where
  offset : value.bitoffset % 8 = field.bitoffset % 8
  count : value.bitcount = field.bitcount
  steady : Steady value p (fieldStart p field) field.bitcount

/-- The first `n` bits of the field are set. -/
structure PartSet (field : HeaderField) (value : ValueRef) (p q : Packet) (n : Nat) : Prop where
  sets : Sets p.buf q.buf (fieldStart p field) n (value.bit p)
  rest : q = { p with buf := q.buf }

theorem PartSet.refl (field : HeaderField) (value : ValueRef) (p : Packet) :
    PartSet field value p p 0 :=
  ⟨Sets.refl _ _ _, rfl⟩

section Octet

variable {field : HeaderField} {value : ValueRef} {p q : Packet} {n i lo hi : Nat}

theorem PartSet.dstAddr (h : PartSet field value p q n) (i : Nat) :
    dstAddr field q i = dstAddr field p i := by
  rw [h.rest]
  rfl

theorem PartSet.sameOutside (h : PartSet field value p q n) (hn : n ≤ field.bitcount) :
    SameOutside p q (fieldStart p field) field.bitcount :=
  fun _ hi => h.sets.outside (by omega)

theorem octetBit_srcData (hfit : Fitting field value p)
    (hq : SameOutside p q (fieldStart p field) field.bitcount) {k : Nat}
    (hk : k < 8) (hfirst : field.bitoffset % 8 ≤ 8 * i + k)
    (hlast : 8 * i + k < field.bitoffset % 8 + field.bitcount) :
    octetBit (srcData value q i) k = value.bit p (8 * i + k - field.bitoffset % 8) := by
  have hsteady := hfit.steady q hq (8 * i + k - field.bitoffset % 8) (by omega)
  have hdiv : (field.bitoffset % 8 + (8 * i + k - field.bitoffset % 8)) / 8 = i := by omega
  have hmod : (field.bitoffset % 8 + (8 * i + k - field.bitoffset % 8)) % 8 = k := by omega
  rw [← hsteady, ValueRef.bit, hfit.offset, hdiv, hmod]

theorem PartSet.setDst (h : PartSet field value p q n)
    (hnext : field.bitoffset % 8 + n = 8 * i + lo) (hle : lo ≤ hi) (hhi : hi ≤ 8) {octet : UInt8}
    (hoctet : ∀ k < 8, octetBit octet k =
      if lo ≤ k ∧ k < hi then value.bit p (8 * i + k - field.bitoffset % 8)
      else octetBit (hdrData field q i) k) :
    PartSet field value p (setDst field q i octet) (n + (hi - lo)) := by
  have haddr := h.dstAddr i
  have hstart : fieldStart p field = 8 * (headerStart p field.headerIdx + field.bitoffset / 8) +
      field.bitoffset % 8 := by
    unfold fieldStart
    omega
  refine ⟨?_, ?_⟩
  · rw [Dnt.setDst, haddr]
    have hbits : fieldStart p field + n = 8 * Dnt.dstAddr field p i + lo := by
      rw [Dnt.dstAddr, hstart]
      omega
    refine h.sets.store hbits hle hhi fun k hk => ?_
    · have hindex : 8 * Dnt.dstAddr field p i + k - fieldStart p field =
          8 * i + k - field.bitoffset % 8 := by
        rw [Dnt.dstAddr, hstart]
        omega
      rw [hoctet k hk, hindex, ← haddr]
      rfl
  · rw [Dnt.setDst, h.rest]

theorem hdrData_setDst (field : HeaderField) (p : Packet) (i : Nat) (octet : UInt8) :
    hdrData field (Dnt.setDst field p i octet) i = octet :=
  update_self ..

theorem setDst_setDst (field : HeaderField) (p : Packet) (i : Nat) (a b : UInt8) :
    Dnt.setDst field (Dnt.setDst field p i a) i b = Dnt.setDst field p i b := by
  change { p with buf := update (update p.buf _ a) (Dnt.dstAddr field p i) b } = _
  rw [update_idem]
  rfl

theorem octetBit_mask (hle : lo ≤ hi) (hhi : hi ≤ 8) {k : Nat} (hk : k < 8) :
    octetBit (bitMask (hi - lo) (8 - hi)) k = decide (lo ≤ k ∧ k < hi) := by
  have hlo : 8 - (8 - hi) - (hi - lo) = lo := by omega
  have hhi' : 8 - (8 - hi) = hi := by omega
  rw [octetBit_bitMask (by omega) hk, hlo, hhi']

theorem SameOutside.clear (hq : SameOutside p q (fieldStart p field) field.bitcount)
    (haddr : Dnt.dstAddr field q i = Dnt.dstAddr field p i) (hle : lo ≤ hi) (hhi : hi ≤ 8)
    (hfirst : field.bitoffset % 8 ≤ 8 * i + lo)
    (hlast : 8 * i + hi ≤ field.bitoffset % 8 + field.bitcount) :
    SameOutside p (Dnt.setDst field q i (hdrData field q i &&& ~~~bitMask (hi - lo) (8 - hi)))
      (fieldStart p field) field.bitcount := by
  intro j hj
  rw [← hq j hj, packetBit, Dnt.setDst, bit_update]
  by_cases hoctet : j / 8 = Dnt.dstAddr field q i
  · have hmod : j % 8 < 8 := by omega
    -- no bit of the mask is outside the field
    have hmask : octetBit (bitMask (hi - lo) (8 - hi)) (j % 8) = false := by
      rw [octetBit_mask hle hhi hmod, decide_eq_false_iff_not]
      rw [haddr, Dnt.dstAddr] at hoctet
      unfold fieldStart at hj
      omega
    rw [if_pos hoctet, octetBit_and, octetBit_not _ hmod, hmask, Bool.not_false, Bool.and_true,
      packetBit, bit, hoctet]
    rfl
  · rw [if_neg hoctet]
    rfl

theorem PartSet.mergeDst (h : PartSet field value p q n) (hfit : Fitting field value p)
    (hnext : field.bitoffset % 8 + n = 8 * i + lo) (hle : lo ≤ hi) (hhi : hi ≤ 8)
    (hcount : n + (hi - lo) ≤ field.bitcount) :
    PartSet field value p (mergeDst (bitMask (hi - lo) (8 - hi)) field value q i)
      (n + (hi - lo)) := by
  have hclear := (h.sameOutside (by omega)).clear (h.dstAddr i) hle hhi (by omega) (by omega)
  simp only [Dnt.mergeDst, setDst_setDst, hdrData_setDst]
  refine h.setDst hnext hle hhi fun k hk => ?_
  rw [octetBit_merge _ _ _ hk, octetBit_mask hle hhi hk]
  simp only [decide_eq_true_eq]
  by_cases hin : lo ≤ k ∧ k < hi
  · rw [if_pos hin, if_pos hin]
    exact octetBit_srcData hfit hclear hk (by omega) (by omega)
  · rw [if_neg hin, if_neg hin]

theorem PartSet.copyDst (h : PartSet field value p q n) (hfit : Fitting field value p)
    (hnext : field.bitoffset % 8 + n = 8 * i) (hcount : n + 8 ≤ field.bitcount) :
    PartSet field value p (copyDst field value q i) (n + 8) := by
  have hzero : 0 ≤ 8 := Nat.zero_le 8
  refine h.setDst hnext hzero (Nat.le_refl 8) fun k hk => ?_
  rw [if_pos ⟨Nat.zero_le k, hk⟩]
  exact octetBit_srcData hfit (h.sameOutside (by omega)) hk (by omega) (by omega)

theorem PartSet.copyLoop (h : PartSet field value p q n) (hfit : Fitting field value p)
    (first len : Nat) (hnext : field.bitoffset % 8 + n = 8 * first)
    (hcount : n + 8 * len ≤ field.bitcount) : PartSet field value p
      ((List.range len).foldl (fun p i => Dnt.copyDst field value p (first + i)) q)
      (n + 8 * len) := by
  induction len with
  | zero => exact h
  | succ len ih =>
    rw [List.range_succ, List.foldl_append]
    exact (ih (by omega)).copyDst hfit (by omega) (by omega)

end Octet

/-! ### Whole fields -/

section Writers

variable {field : HeaderField} {value : ValueRef} {p : Packet} (hfit : Fitting field value p)

include hfit

theorem partSet_writeBytes (hoffset : field.bitoffset % 8 = 0) (hcount : field.bitcount % 8 = 0) :
    PartSet field value p (writeBytes field value p) field.bitcount := by
  have hloop := (PartSet.refl field value p).copyLoop hfit 0 (field.bitcount / 8) (by omega)
    (by omega)
  have hlen : 0 + 8 * (field.bitcount / 8) = field.bitcount := by omega
  simp only [hlen, Nat.zero_add] at hloop
  rw [writeBytes, hfit.count]
  exact hloop

theorem partSet_first {count : Nat} (hoctet : field.bitoffset % 8 + count ≤ 8)
    (hcount : count ≤ field.bitcount) : PartSet field value p
      (mergeDst (bitMask count (8 - field.bitoffset % 8 - count)) field value p 0) count := by
  have hle : field.bitoffset % 8 ≤ field.bitoffset % 8 + count := Nat.le_add_right _ _
  have hnext : field.bitoffset % 8 + 0 = 8 * 0 + field.bitoffset % 8 := by omega
  have hmerge := (PartSet.refl field value p).mergeDst hfit hnext hle hoctet (by omega)
  rw [Nat.add_sub_cancel_left, ← Nat.sub_sub, Nat.zero_add] at hmerge
  exact hmerge

theorem partSet_writeBits (hoctet : field.bitoffset % 8 + field.bitcount ≤ 8) :
    PartSet field value p (writeBits field value p) field.bitcount :=
  partSet_first hfit hoctet (Nat.le_refl _)

theorem partSet_writeGeneric (hoctets : 8 < field.bitoffset % 8 + field.bitcount) :
    PartSet field value p (writeGeneric field value p) field.bitcount := by
  have hmin : min field.bitcount (8 - field.bitoffset % 8) = 8 - field.bitoffset % 8 := by omega
  have hoctet : field.bitoffset % 8 + (8 - field.bitoffset % 8) ≤ 8 := by omega
  have hfirst := partSet_first hfit hoctet (by omega)
  have hloop := hfirst.copyLoop hfit 1 ((field.bitcount - (8 - field.bitoffset % 8)) / 8)
    (by omega) (by omega)
  simp only [writeGeneric, hmin]
  generalize hlen : (field.bitcount - (8 - field.bitoffset % 8)) / 8 = len at hloop ⊢
  by_cases hlast : field.bitcount - (8 - field.bitoffset % 8) - len * 8 = 0
  · rw [if_pos hlast]
    have hall : 8 - field.bitoffset % 8 + 8 * len = field.bitcount := by omega
    rwa [hall] at hloop
  · rw [if_neg hlast]
    have hnext : field.bitoffset % 8 + (8 - field.bitoffset % 8 + 8 * len) = 8 * (1 + len) + 0 := by
      omega
    have hpositive : 0 ≤ field.bitcount - (8 - field.bitoffset % 8) - len * 8 := Nat.zero_le _
    have hmerge := hloop.mergeDst hfit hnext hpositive (by omega) (by omega)
    have hall : 8 - field.bitoffset % 8 + 8 * len +
        (field.bitcount - (8 - field.bitoffset % 8) - len * 8 - 0) = field.bitcount := by omega
    rw [hall] at hmerge
    exact hmerge

theorem partSet_writeField {source : Value} (hcount : source.bitcount = field.bitcount)
    (hoffset : source.bitoffset % 8 = field.bitoffset % 8) :
    ∃ w, headerGetFieldWriter field source = some w ∧
      PartSet field value p (writeField w field value p) field.bitcount := by
  unfold headerGetFieldWriter
  rw [if_neg (not_not.mpr hcount), if_neg (not_not.mpr hoffset)]
  by_cases hbytes : field.bitoffset % 8 = 0 ∧ field.bitcount % 8 = 0
  · rw [if_pos hbytes]
    exact ⟨.bytes, rfl, partSet_writeBytes hfit hbytes.1 hbytes.2⟩
  rw [if_neg hbytes]
  by_cases hbits : field.bitoffset % 8 + field.bitcount ≤ 8
  · rw [if_pos hbits]
    exact ⟨.bits, rfl, partSet_writeBits hfit hbits⟩
  · rw [if_neg hbits]
    exact ⟨.generic, rfl, partSet_writeGeneric hfit (Nat.lt_of_not_le hbits)⟩

end Writers

/-! ### Assignments -/

/-- The bits of the field are those of `source`, and nothing else of the packet has
changed. -/
structure FieldSet (p q : Packet) (field : HeaderField) (source : Nat → Bool) : Prop where
  bits : ∀ k < field.bitcount, fieldBit q field k = source k
  others : ∀ i, i < fieldStart p field ∨ fieldStart p field + field.bitcount ≤ i →
    packetBit q i = packetBit p i
  rest : q = { p with buf := q.buf }

theorem PartSet.fieldSet {field : HeaderField} {value : ValueRef} {p q : Packet}
    (h : PartSet field value p q field.bitcount) : FieldSet p q field (value.bit p) := by
  have hstart : fieldStart q field = fieldStart p field := by
    rw [h.rest]
    rfl
  refine ⟨fun k hk => ?_, fun i hi => h.sets.outside hi, h.rest⟩
  rw [fieldBit, hstart]
  exact h.sets.inside hk

/-- Two fields without a common bit. -/
def FieldsApart (p : Packet) (a b : HeaderField) : Prop :=
  fieldStart p a + a.bitcount ≤ fieldStart p b ∨ fieldStart p b + b.bitcount ≤ fieldStart p a

theorem fitting_ref {field : HeaderField} {value : Value} (p : Packet)
    (hcount : value.bitcount = field.bitcount)
    (hoffset : value.bitoffset % 8 = field.bitoffset % 8) : Fitting field value.ref p :=
  ⟨hoffset, hcount, fun q _ k _ => (bit_ref value q k).trans (bit_ref value p k).symm⟩

theorem fitting_readBytes {field source : HeaderField} {p : Packet}
    (hcount : source.bitcount = field.bitcount)
    (hoffset : source.bitoffset % 8 = field.bitoffset % 8) (hapart : FieldsApart p source field) :
    Fitting field (readBytes source p) p := by
  refine ⟨?_, hcount, fun q hq k hk => ?_⟩
  · change source.bitoffset % 8 % 8 = _
    rw [Nat.mod_mod, hoffset]
  · rw [bit_readBytes, bit_readBytes]
    unfold FieldsApart at hapart
    exact hq _ (by omega)

/-- An assignment of a constant, or of another field with no common bit, can be executed,
sets the bits of the target to those that the source had before, and changes nothing
else. -/
theorem execute_sets (target : HeaderField) (p : Packet) :
    (∀ value : Value, value.bitcount = target.bitcount →
      value.bitoffset % 8 = target.bitoffset % 8 →
      ∃ w, headerGetFieldWriter target value = some w ∧
        FieldSet p (EditAssign.execute ⟨w, target, .constant value⟩ p) target (valueBit value)) ∧
    (∀ source : HeaderField, source.bitcount = target.bitcount →
      source.bitoffset % 8 = target.bitoffset % 8 → FieldsApart p source target →
      headerHasFieldReader (initValue target.bitoffset target.bitcount) source = true ∧
      ∃ w, headerGetFieldWriter target (initValue source.bitoffset source.bitcount) = some w ∧
        FieldSet p (EditAssign.execute ⟨w, target, .field source⟩ p) target
          (fieldBit p source)) := by
  constructor
  · intro value hcount hoffset
    obtain ⟨w, hw, hset⟩ := partSet_writeField (fitting_ref p hcount hoffset) hcount hoffset
    refine ⟨w, hw, ?_⟩
    have hbits : value.ref.bit p = valueBit value := funext (bit_ref value p)
    exact hbits ▸ hset.fieldSet
  · intro source hcount hoffset hapart
    have hreader : headerHasFieldReader (initValue target.bitoffset target.bitcount) source =
        true := by
      simp [headerHasFieldReader, initValue, hcount, hoffset]
    have hcount' : (initValue source.bitoffset source.bitcount).bitcount = target.bitcount := hcount
    obtain ⟨w, hw, hset⟩ :=
      partSet_writeField (fitting_readBytes hcount hoffset hapart) hcount' hoffset
    refine ⟨hreader, w, hw, ?_⟩
    have hbits : (readBytes source p).bit p = fieldBit p source :=
      funext (bit_readBytes source p p)
    exact hbits ▸ hset.fieldSet

def threeOctets : Packet :=
  ⟨fun i => [0x12, 0x34, 0x56].getD i 0, 0, 3, 0, [⟨.payload, 0, 3⟩]⟩

/-- The last four bits of the first octet and the first four of the second one are assigned to
the next eight bits. The fields share an octet, and no bit. -/
theorem execute_sets_shared_octet :
    FieldsApart threeOctets ⟨0, 4, 8⟩ ⟨0, 12, 8⟩ ∧
      ∃ w, headerGetFieldWriter ⟨0, 12, 8⟩ (initValue 4 8) = some w ∧
        FieldSet threeOctets (EditAssign.execute ⟨w, ⟨0, 12, 8⟩, .field ⟨0, 4, 8⟩⟩ threeOctets)
          ⟨0, 12, 8⟩ (fieldBit threeOctets ⟨0, 4, 8⟩) :=
  ⟨.inl (by decide),
    ((execute_sets ⟨0, 12, 8⟩ threeOctets).2 ⟨0, 4, 8⟩ rfl rfl (.inl (by decide))).2⟩

example : ((List.range 3).map (EditAssign.execute ⟨.generic, ⟨0, 12, 8⟩, .field ⟨0, 4, 8⟩⟩
    threeOctets).buf) = [0x12, 0x32, 0x36] := by decide

end Dnt
