import Dnt.Core.Packet
import Dnt.Library.Memory

/-!
# Packets as Octets

The octets of a packet are those of its headers, one header after the other. What is
written where is a list of writes.

## Main definitions

* `packetOctets`: The octets of a packet.
* `serializePacket`: Copying them into the buffer of a new packet.
* `gatherStep`: A round of `iface_common_send`, which gives ranges of the buffer to the
  kernel, after it has merged those that are next to each other.
-/

namespace Dnt

def octetsOfHeader (p : Packet) (h : PacketHeader) : List UInt8 :=
  Memory.load p.buf h.start h.len

def packetOctets (p : Packet) : List UInt8 :=
  p.headers.flatMap (octetsOfHeader p)

/-- The loop of `serialize_packet`: what it copies, and the length at its end. -/
def serializeLoop (p : Packet) : Nat → List PacketHeader → List (Store UInt8) × Nat
  | dstlen, [] => ([], dstlen)
  | dstlen, h :: hs =>
    let rest := serializeLoop p (u32 (dstlen + h.len)) hs
    (⟨packetStartOffset + dstlen, octetsOfHeader p h⟩ :: rest.1, rest.2)

def serializeStores (p : Packet) : List (Store UInt8) :=
  (serializeLoop p 0 p.headers).1

def serializePacket (p : Packet) : Packet :=
  { buf := Memory.storeAll (fun _ => 0) (serializeStores p)
    start := packetStartOffset
    len := (serializeLoop p 0 p.headers).2
    scratchLen := 0
    headers := [] }

/-- A range of the buffer. -/
structure Iovec where
  base : Nat
  len : Nat
  deriving DecidableEq, Repr

def Iovec.octets (buf : Nat → UInt8) (v : Iovec) : List UInt8 :=
  Memory.load buf v.base v.len

/-- One round of the loop in `iface_common_send`, with the ranges so far and the header of
the round before. -/
def gatherStep (s : List Iovec × Option PacketHeader) (h : PacketHeader) :
    List Iovec × Option PacketHeader :=
  match s.2 with
  | none => ([⟨h.start, h.len⟩], some h)
  | some prev =>
    if h.start = u32 (prev.start + prev.len) then
      -- the length of a range has 64 bits
      (s.1.modify (s.1.length - 1) fun v => { v with len := v.len + h.len }, some h)
    else (s.1 ++ [⟨h.start, h.len⟩], some h)

/-- The ranges that `sendmsg` gets. A packet without headers is not sent. -/
def ifaceCommonSend (p : Packet) : Option (List Iovec) :=
  if p.headers.length < 1 then none
  else some (p.headers.foldl gatherStep ([], none)).1

end Dnt
