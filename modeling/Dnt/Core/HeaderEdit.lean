import Dnt.Core.Header

/-!
# Writing Header Fields

The functions of `header.c` that write a field of a packet and read one, and the edit
action of `action.c` that calls them. Writing goes on octet by octet, and reads the
source as it is by then.

## Main definitions

* `ValueRef`: A `struct Value`, whose pointer leads to a constant, or into the packet
  itself if the value is another field of it.
* `EditAssign.execute`: One assignment of an edit action.
-/

namespace Dnt

inductive ValuePointer where
  | constant (octets : List UInt8)
  | packet (addr : Nat)
  deriving DecidableEq, Repr

structure ValueRef where
  value : ValuePointer
  bitoffset : Nat
  bitcount : Nat
  deriving DecidableEq, Repr

def Value.ref (v : Value) : ValueRef :=
  ⟨.constant v.value, v.bitoffset, v.bitcount⟩

variable (field : HeaderField) (value : ValueRef) (p : Packet)

/-- `src[i]`. -/
def srcData (i : Nat) : UInt8 :=
  match value.value with
  | .constant octets => octets.getD (value.bitoffset / 8 + i) 0
  | .packet addr => p.buf (addr + value.bitoffset / 8 + i)

/-- The position of `dst[i]` in the buffer. -/
def dstAddr (i : Nat) : Nat :=
  headerStart p field.headerIdx + field.bitoffset / 8 + i

def setDst (i : Nat) (octet : UInt8) : Packet :=
  { p with buf := Function.update p.buf (dstAddr field p i) octet }

/-- `dst[i] = src[i]`. -/
def copyDst (i : Nat) : Packet :=
  setDst field p i (srcData value p i)

/-- `dst[i] &= ~mask`, and then `dst[i] |= src[i] & mask`. -/
def mergeDst (mask : UInt8) (field : HeaderField) (value : ValueRef) (p : Packet) (i : Nat) :
    Packet :=
  let p := setDst field p i (hdrData field p i &&& ~~~mask)
  setDst field p i (hdrData field p i ||| (srcData value p i &&& mask))

/-- Whole octets. -/
def writeBytes : Packet :=
  (List.range (value.bitcount / 8)).foldl (copyDst field value) p

/-- Bits of a single octet. -/
def writeBits : Packet :=
  let bitoffset := field.bitoffset % 8
  mergeDst (bitMask field.bitcount (8 - bitoffset - field.bitcount)) field value p 0

/-- Any number of bits: the first octet, the whole octets after it, and the bits that are
left. -/
def writeGeneric : Packet :=
  let bitoffset := field.bitoffset % 8
  let bitcount1 := min field.bitcount (8 - bitoffset)
  let p := mergeDst (bitMask bitcount1 (8 - bitoffset - bitcount1)) field value p 0
  let remainingBits := field.bitcount - bitcount1
  let remainingBytes := remainingBits / 8
  let p := (List.range remainingBytes).foldl (fun p i => copyDst field value p (1 + i)) p
  let lastBits := remainingBits - remainingBytes * 8
  if lastBits = 0 then p
  else mergeDst (bitMask lastBits (8 - lastBits)) field value p (1 + remainingBytes)

def writeField : FieldWriter → HeaderField → ValueRef → Packet → Packet
  | .bytes => writeBytes
  | .bits => writeBits
  | .generic => writeGeneric

/-- `read_bytes`: the value points to the first octet of the field. -/
def readBytes (source : HeaderField) (p : Packet) : ValueRef :=
  ⟨.packet (headerStart p source.headerIdx + source.bitoffset / 8), source.bitoffset % 8,
    source.bitcount⟩

/-- What an assignment reads: a constant, a field of the packet, or a property of an
interface, which is a constant at the time. -/
inductive EditSource where
  | constant (value : Value)
  | field (source : HeaderField)
  | property (value : Value)
  deriving DecidableEq, Repr

def EditSource.read (source : EditSource) (p : Packet) : ValueRef :=
  match source with
  | .constant value => value.ref
  | .field source => readBytes source p
  | .property value => value.ref

structure EditAssign where
  write : FieldWriter
  target : HeaderField
  source : EditSource
  deriving DecidableEq, Repr

def EditAssign.execute (a : EditAssign) (p : Packet) : Packet :=
  writeField a.write a.target (a.source.read p) p

def actionEditExecute (assigns : List EditAssign) (p : Packet) : Packet :=
  assigns.foldl (fun p a => a.execute p) p

end Dnt
