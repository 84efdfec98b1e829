import Dnt.Core.HeaderEdit

/-!
# Time Stamps in Packets

The actions of `action.c` that move the time stamp of a packet between a header field
and the packet's metadata.

## Main definitions

* `NetworkWord`: The four octets as they are in the packet, in network order. `ntohl` and
  `htonl` are applied where the number is used.
* `actionReadtstampExecute`, `actionWritetstampExecute`: The two actions.
-/

namespace Dnt

/-- A 32-bit variable, octet by octet. -/
abbrev NetworkWord : Type := Fin 4 → UInt8

def ntohl (w : NetworkWord) : Nat :=
  (((w 0).toNat * 2 ^ 8 + (w 1).toNat) * 2 ^ 8 + (w 2).toNat) * 2 ^ 8 + (w 3).toNat

def htonl (n : Nat) : NetworkWord :=
  fun i => UInt8.ofNat (n / 2 ^ (8 * (3 - i.val)))

/-- `memcpy` from the field to the metadata. As many octets are copied as the field has,
which is four in every protocol. -/
def actionReadtstampExecute (field : HeaderField) (p : Packet) (timestamp : NetworkWord) :
    NetworkWord :=
  fun i => if i.val < field.bitcount / 8 then hdrData field p i.val else timestamp i

def actionWritetstampExecute (field : HeaderField) (p : Packet) (timestamp : NetworkWord) :
    Packet :=
  (List.finRange 4).foldl
    (fun p i => if i.val < field.bitcount / 8 then setDst field p i.val (timestamp i) else p) p

end Dnt
