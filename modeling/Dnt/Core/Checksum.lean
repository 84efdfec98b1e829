import Dnt.Library.Memory
import Dnt.Core.Header

/-!
# Internet Checksums

The checksums of `checksum.c`, and the two functions of `inet_utils.c` below them. Memory
is read in little endian order. The pseudo header is an array on the stack, whose address
is a parameter.

## Main definitions

* `csumPartial`: The sum of a piece of memory, in words as large as its alignment allows.
* `csumFold`: A sum folded to 16 bits.
* `packetChecksum`: The checksum of a header of a packet.
* `checksumCompute`, `checksumVerify`: Filling it in, and verifying it.
-/

namespace Dnt

/-- A 16-bit word with its octets in the byte order of the host. -/
def word16 (a b : UInt8) : Nat :=
  a.toNat + b.toNat * 2 ^ 8

/-- `bswap_16` of the word. -/
def swapped16 (a b : UInt8) : Nat :=
  word16 b a

def word32 (a b c d : UInt8) : Nat :=
  word16 a b + word16 c d * 2 ^ 16

/-- `bswap_32` of the word. -/
def swapped32 (a b c d : UInt8) : Nat :=
  word32 d c b a

/-- The loop over words of 32 bits. The carry bit is added. -/
def csumLoop32 (word : UInt8 → UInt8 → UInt8 → UInt8 → Nat) : List UInt8 → Nat → List UInt8 × Nat
  | a :: b :: c :: d :: rest, sum =>
    let sum := sum + word a b c d
    csumLoop32 word rest (if sum ≥ 2 ^ 32 then u32 (u32 sum + 1) else sum)
  | rest, sum => (rest, sum)

def csumLoop16 (word : UInt8 → UInt8 → Nat) : List UInt8 → Nat → List UInt8 × Nat
  | a :: b :: rest, sum => csumLoop16 word rest (u32 (sum + word a b))
  | rest, sum => (rest, sum)

/-- One word to reach an address that 4 divides, if it takes one. -/
def csumAlign (word : UInt8 → UInt8 → Nat) (addr : Nat) : List UInt8 → Nat → List UInt8 × Nat
  | a :: b :: rest, sum =>
    if addr % 4 ≠ 0 then (rest, u32 (sum + word a b)) else (a :: b :: rest, sum)
  | rest, sum => (rest, sum)

/-- The part of `csum_partial` that is the same for even and odd addresses,
with the words as they are or swapped. A last octet counts as `last` says. -/
def csumWords (word : UInt8 → UInt8 → Nat) (wordLong : UInt8 → UInt8 → UInt8 → UInt8 → Nat)
    (last : UInt8 → Nat) (addr : Nat) (bytes : List UInt8) (sum : Nat) : Nat :=
  let aligned := csumAlign word addr bytes sum
  let long := csumLoop32 wordLong aligned.1 aligned.2
  let short := csumLoop16 word long.1 long.2
  match short.1 with
  | [a] => u32 (short.2 + last a)
  | _ => short.2

/-- `csum_partial` of the octets at an address. At an odd address the words that
can be read have their octets the other way round. -/
def csumPartial (addr : Nat) (bytes : List UInt8) (sum : Nat) : Nat :=
  match bytes with
  | [] => sum
  | a :: rest =>
    if addr % 2 = 1 then
      csumWords swapped16 swapped32 (fun a => a.toNat * 2 ^ 8) (addr + 1) rest (u32 (sum + a.toNat))
    else csumWords word16 word32 (fun a => a.toNat) addr bytes sum

/-- `csum_fold`, in network byte order. -/
def csumFold (sum : Nat) : Nat :=
  let sum := sum % 2 ^ 16 + sum / 2 ^ 16
  let sum := sum % 2 ^ 16 + sum / 2 ^ 16
  let folded := 2 ^ 16 - 1 - sum % 2 ^ 16
  folded % 2 ^ 8 * 2 ^ 8 + folded / 2 ^ 8

structure ChecksumParameters where
  hdrIdx : Nat
  hdrProto : ProtocolID
  ipIdx : Nat
  ipVersion : ProtocolID
  deriving DecidableEq, Repr

def number16 (buf : Nat → UInt8) (i : Nat) : Nat :=
  (buf i).toNat * 2 ^ 8 + (buf (i + 1)).toNat

def sub16 (a b : Nat) : Nat :=
  (a + (2 ^ 16 - b % 2 ^ 16)) % 2 ^ 16

variable (pseudoAddr : Nat) (p : Packet) (cp : ChecksumParameters)

/-- The length the IP header gives, without the headers in between. The source
takes the length of the header itself off for each of these. -/
def payloadLength : Nat :=
  let iph := headerStart p cp.ipIdx
  let len :=
    if cp.ipVersion = .ipv4 then
      sub16 (number16 p.buf (iph + 2)) ((p.buf iph).toNat % 2 ^ 4 * 4)
    else number16 p.buf (iph + 4)
  (List.range' (cp.ipIdx + 1) (cp.hdrIdx - (cp.ipIdx + 1))).foldl
    (fun len _ => sub16 len (headerLen p cp.hdrIdx)) len

def ipv4HeaderCsum (iph : Nat) : Nat :=
  csumFold (csumPartial iph (Memory.load p.buf iph ((p.buf iph).toNat % 2 ^ 4 * 4)) 0)

/-- The loop over the headers from `hdrIdx` on: as much of each as `len` still
covers. -/
def csumHeaders (hdrIdx len sum : Nat) : Nat :=
  ((p.headers.drop hdrIdx).foldl (fun (acc : Nat × Nat) h =>
      let hlen := min acc.1 h.len
      (acc.1 - hlen, csumPartial h.start (Memory.load p.buf h.start hlen) acc.2))
    (len, sum)).2

def icmpv4Csum : Nat :=
  csumFold (csumHeaders p cp.hdrIdx (payloadLength p cp) 0)

/-- The protocol number of a header with a pseudo header in its checksum. -/
def layer4Protoid : ProtocolID → Option UInt8
  | .icmpv6 => some 58
  | .tcp => some 6
  | .udp => some 17
  | _ => none

/-- The sum of the addresses and the rest of the pseudo header, which is at
`pseudoAddr`. -/
def pseudoCsum (protoid : UInt8) (len : Nat) : Nat :=
  let iph := headerStart p cp.ipIdx
  let hi := UInt8.ofNat (len / 2 ^ 8)
  let lo := UInt8.ofNat len
  if cp.ipVersion = .ipv4 then
    csumPartial pseudoAddr [0, protoid, hi, lo]
      (csumPartial (iph + 12) (Memory.load p.buf (iph + 12) 8) 0)
  else
    csumPartial pseudoAddr [0, 0, hi, lo, 0, 0, 0, protoid]
      (csumPartial (iph + 8) (Memory.load p.buf (iph + 8) 32) 0)

def layer4Csum : Nat :=
  match layer4Protoid cp.hdrProto with
  | none => 2 ^ 16 - 1
  | some protoid =>
    let len := payloadLength p cp
    csumFold (csumHeaders p cp.hdrIdx len (pseudoCsum pseudoAddr p cp protoid len))

def checksumOffset : ProtocolID → Option Nat
  | .ipv4 => some 10
  | .icmpv4 => some 2
  | .icmpv6 => some 2
  | .tcp => some 16
  | .udp => some 6
  | _ => none

def packetChecksum : Nat :=
  match cp.hdrProto with
  | .ipv4 => ipv4HeaderCsum p (headerStart p cp.hdrIdx)
  | .icmpv4 => icmpv4Csum p cp
  | _ => layer4Csum pseudoAddr p cp

/-- What `checksum_compute` writes: the field is cleared first, since it is part
of what is summed up. -/
def checksumStores : List (Store UInt8) :=
  match checksumOffset cp.hdrProto with
  | none => []
  | some offset =>
    let pos := headerStart p cp.hdrIdx + offset
    let cleared : Store UInt8 := ⟨pos, [0, 0]⟩
    let csum16 := packetChecksum pseudoAddr { p with buf := Memory.store p.buf cleared } cp
    [cleared, ⟨pos, [UInt8.ofNat (csum16 / 2 ^ 8), UInt8.ofNat csum16]⟩]

def checksumCompute : Packet :=
  { p with buf := Memory.storeAll p.buf (checksumStores pseudoAddr p cp) }

def checksumVerify : Bool :=
  packetChecksum pseudoAddr p cp == 0

theorem checksumStores_covers {pseudoAddr : Nat} {p : Packet} {cp : ChecksumParameters}
    {offset : Nat} (hoffset : checksumOffset cp.hdrProto = some offset) {w : Store UInt8}
    (hw : w ∈ checksumStores pseudoAddr p cp) :
    w.dst = headerStart p cp.hdrIdx + offset ∧ w.block.length = 2 := by
  simp only [checksumStores, hoffset, List.mem_cons, List.not_mem_nil, or_false] at hw
  rcases hw with rfl | rfl
  all_goals exact ⟨rfl, rfl⟩

end Dnt
