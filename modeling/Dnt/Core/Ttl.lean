import Dnt.Core.Checksum
import Dnt.Core.ConfAction
import Dnt.Core.HeaderEdit

/-!
# Reducing the Time to Live

The ttlreduce action of `action.c`, and how it is made from what the compiler has found.

## Main definitions

* `reduceTtl`: The action takes one off the time to live of a header.
* `reduceCsum`: If it has a checksum field of the same header, it also brings the checksum
  up to date, without summing up the header again.
* `actionTtlreduceExecute`, `TtlAction.create`: Running it, and making it.
-/

namespace Dnt

structure TtlData where
  field : HeaderField
  csum : HeaderField
  decrement : Nat
  deriving DecidableEq, Repr

/-- The decrement depends on which half of a word the time to live is. Without a checksum
the header index is `UINT32_MAX`, which no header has. -/
def createActionTtlreduce (ttlfield : HeaderField) (csumfield : Option HeaderField) : TtlData :=
  match csumfield with
  | some csum => ⟨ttlfield, csum, if ttlfield.bitoffset / 8 % 2 = 1 then 1 else 256⟩
  | none => ⟨ttlfield, ⟨2 ^ 32 - 1, 0, 0⟩, 0⟩

/-- `if (*ttl > 0) *ttl -= 1;` -/
def reduceTtl (field : HeaderField) (p : Packet) : Packet :=
  if p.buf (dstAddr field p 0) > 0 then setDst field p 0 (p.buf (dstAddr field p 0) - 1) else p

/-- The decrement is taken off the complement of the checksum. -/
def reduceCsum (csum : HeaderField) (decrement : Nat) (p : Packet) : Packet :=
  let csum16 := 2 ^ 16 - 1 - number16 p.buf (dstAddr csum p 0)
  let csum16 := 2 ^ 16 - 1 - sub16 csum16 decrement
  let p := setDst csum p 0 (UInt8.ofNat (csum16 / 2 ^ 8))
  setDst csum p 1 (UInt8.ofNat csum16)

/-- `action_TTLREDUCE_execute`: the packet, and the time to live in its metadata. -/
def actionTtlreduceExecute (td : TtlData) (p : Packet) : Packet × UInt8 :=
  let p := reduceTtl td.field p
  let ttl := p.buf (dstAddr td.field p 0)
  if td.csum.headerIdx = td.field.headerIdx then (reduceCsum td.csum td.decrement p, ttl)
  else (p, ttl)

def TtlAction.create (d : TtlAction) : Option TtlData :=
  d.field.map fun field => createActionTtlreduce field.field (d.csum.map FieldRef.field)

end Dnt
