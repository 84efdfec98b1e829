import Dnt.Core.Packet

/-!
# Header Fields and Matches

Fields of headers, and comparing them with a constant, after `header.c` and
`headerdesc.h`.

## Main definitions

* `HeaderField`: A range of bits of the header with some index.
* `Value`: A buffer with the range of bits of it that counts.
* `HeaderDescriptor`: A header of a configured packet, with the matches on its fields.
* `FieldComparator`: One of the three comparison functions the source points to.

## Theorems

* `compareField_congr`: A comparison only reads the header it names.
-/

namespace Dnt

variable {p : Packet}

structure HeaderField where
  headerIdx : Nat
  bitoffset : Nat
  bitcount : Nat
  deriving DecidableEq, Repr

structure Value where
  value : List UInt8
  bitoffset : Nat
  bitcount : Nat
  deriving DecidableEq, Repr

variable (field : HeaderField) (value : Value)

def hdrData (p : Packet) (i : Nat) : UInt8 :=
  p.buf (headerStart p field.headerIdx + field.bitoffset / 8 + i)

def matchData (i : Nat) : UInt8 :=
  value.value.getD (value.bitoffset / 8 + i) 0

def bitMask (bitcount shift : Nat) : UInt8 :=
  UInt8.ofNat ((2 ^ bitcount % 256 + 255) % 256 * 2 ^ shift)

/-- Whole octets. -/
def compareBytes (p : Packet) : Bool :=
  (List.range (value.bitcount / 8)).all fun i => hdrData field p i == matchData value i

/-- Bits of a single octet. -/
def compareBits (p : Packet) : Bool :=
  let bitoffset := field.bitoffset % 8
  let mask := bitMask field.bitcount (8 - bitoffset - field.bitcount)
  (hdrData field p 0 &&& mask) == (matchData value 0 &&& mask)

/-- Any number of bits: the first octet, the whole octets after it, and the
bits that are left. -/
def compareGeneric (p : Packet) : Bool :=
  let bitoffset := field.bitoffset % 8
  let bitcount1 := min field.bitcount (8 - bitoffset)
  let mask := bitMask bitcount1 (8 - bitoffset - bitcount1)
  let remainingBits := field.bitcount - bitcount1
  let remainingBytes := remainingBits / 8
  let lastBits := remainingBits - remainingBytes * 8
  let lastMask := bitMask lastBits (8 - lastBits)
  let byteoffset := 1 + remainingBytes
  (hdrData field p 0 &&& mask) == (matchData value 0 &&& mask) &&
    ((List.range remainingBytes).all fun i =>
      hdrData field p (1 + i) == matchData value (1 + i)) &&
    (lastBits == 0 ||
      (hdrData field p byteoffset &&& lastMask) == (matchData value byteoffset &&& lastMask))

inductive FieldComparator where
  | bytes
  | bits
  | generic
  deriving DecidableEq, Repr

def compareField : FieldComparator → HeaderField → Value → Packet → Bool
  | .bytes => compareBytes
  | .bits => compareBits
  | .generic => compareGeneric

/-- `header_get_field_comprator`, none for a value that does not fit. -/
def headerGetFieldComparator (target : HeaderField) (m : Value) : Option FieldComparator :=
  if m.bitcount ≠ target.bitcount then none
  else if m.bitoffset % 8 ≠ target.bitoffset % 8 then none
  else if target.bitoffset % 8 = 0 ∧ target.bitcount % 8 = 0 then some .bytes
  else if target.bitoffset % 8 + target.bitcount ≤ 8 then some .bits
  else some .generic

inductive FieldWriter where
  | bytes
  | bits
  | generic
  deriving DecidableEq, Repr

/-- `header_get_field_writer`, none for a source that does not fit. -/
def headerGetFieldWriter (target : HeaderField) (source : Value) : Option FieldWriter :=
  if source.bitcount ≠ target.bitcount then none
  else if source.bitoffset % 8 ≠ target.bitoffset % 8 then none
  else if target.bitoffset % 8 = 0 ∧ target.bitcount % 8 = 0 then some .bytes
  else if target.bitoffset % 8 + target.bitcount ≤ 8 then some .bits
  else some .generic

/-- Whether `header_get_field_reader` finds a reader. There is only one, for
all sources that fit. -/
def headerHasFieldReader (target : Value) (source : HeaderField) : Bool :=
  source.bitcount = target.bitcount && source.bitoffset % 8 = target.bitoffset % 8

structure HeaderMatch where
  field : HeaderField
  value : Value
  comparator : FieldComparator
  neg : Bool
  deriving DecidableEq, Repr

/-- A header of a configured packet, with the matches on its fields. -/
structure HeaderDescriptor where
  name : String
  id : ProtocolID
  matchList : List HeaderMatch
  deriving DecidableEq, Repr

theorem compareField_congr {c : FieldComparator} {field : HeaderField} {value : Value} {p' : Packet}
    (hbuf : p.buf = p'.buf)
    (hstart : headerStart p field.headerIdx = headerStart p' field.headerIdx) :
    compareField c field value p = compareField c field value p' := by
  have hdata : hdrData field p = hdrData field p' := by
    funext i
    simp only [hdrData, hbuf, hstart]
  cases c with
  | bytes => simp only [compareField, compareBytes, hdata]
  | bits => simp only [compareField, compareBits, hdata]
  | generic => simp only [compareField, compareGeneric, hdata]

end Dnt
