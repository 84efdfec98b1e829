import Dnt.Core.Protocol
import Dnt.Library.Mealy

/-!
# Packets

A packet and the headers it is read as, after `packet.c`. Sums of the unsigned fields wrap
at 32 bits.

## Main definitions

* `Packet`: The buffer holds the received octets from `start` on and, at its beginning, a
  scratch space for headers added later. The header array and its count are one list, the
  entries in use.
* `packetIdentifyHeader`, `packetAddHeader`, `packetDelHeader`: Changes of this list. Only
  setting a length can read past the count, and has such entries as a parameter.
* `packetIsLinear`: Whether the headers are one behind the other.
-/

namespace Dnt

def packetBufLen : Nat := 10000

def packetMaxHeaderNum : Nat := 20

def packetStartOffset : Nat := 1024

def u32 (n : Nat) : Nat :=
  n % 4294967296

theorem u32_of_lt {n : Nat} (h : n < 4294967296) : u32 n = n :=
  Nat.mod_eq_of_lt h

structure PacketHeader where
  type : ProtocolID
  start : Nat
  len : Nat
  deriving DecidableEq, Repr

structure Packet where
  buf : Nat → UInt8
  start : Nat
  len : Nat
  scratchLen : Nat
  headers : List PacketHeader

/-- A packet as `new_packet` returns it, before an interface fills in what it
received. -/
def newPacket (buf : Nat → UInt8) : Packet :=
  { buf := buf, start := packetStartOffset, len := 0, scratchLen := 0, headers := [] }

variable (p : Packet)

/-- Read `len` octets at `offset` of the received packet as a header. Headers
are identified in increasing order of their starts. -/
def packetIdentifyHeader (type : ProtocolID) (offset len : Nat) : Bool × Packet :=
  if p.headers.length = packetMaxHeaderNum then (false, p)
  -- the last header has to start in front of this one
  else if p.headers.getLast?.any (fun h => decide (h.start ≥ u32 (p.start + offset))) = true then
    (false, p)
  else if u32 (offset + len) > p.len then (false, p)
  else (true, { p with headers := p.headers ++ [⟨type, u32 (p.start + offset), len⟩] })

/-- Take `len` octets of the scratch space. It has to stay clear of the
received packet, so the offset it returns is small. -/
def scratchAlloc (len : Nat) : Option (Nat × Packet) :=
  -- the sum is unsigned, and a large `len` can wrap around
  if u32 (p.scratchLen + len) ≥ p.start then none
  else some (p.scratchLen, { p with scratchLen := u32 (p.scratchLen + len) })

/-- Insert a header at `idx`, its octets on the scratch space. -/
def packetAddHeader (idx : Nat) (type : ProtocolID) (len : Nat) : Bool × Packet :=
  if p.headers.length = packetMaxHeaderNum then (false, p)
  else if idx > p.headers.length then (false, p)
  else match scratchAlloc p len with
    | none => (false, p)
    | some (start, p) => (true, { p with headers := p.headers.insertIdx idx ⟨type, start, len⟩ })

/-- Remove the header at `idx`. Its octets are not reclaimed. -/
def packetDelHeader (idx : Nat) : Packet :=
  if idx ≥ p.headers.length then p
  else { p with headers := p.headers.eraseIdx idx }

def packetClearHeaders : Packet :=
  { p with headers := [], scratchLen := 0 }

/-- A packet with nothing received can use the whole buffer as scratch. -/
def packetEnlargeScratch : Packet :=
  if p.len = 0 then { p with start := packetBufLen } else p

/-- The length of the packet by its headers. -/
def packetLength : Nat :=
  p.headers.foldl (fun n h => u32 (n + h.len)) 0

def headerStart (idx : Nat) : Nat :=
  (p.headers[idx]?.map PacketHeader.start).getD 0

def headerLen (idx : Nat) : Nat :=
  (p.headers[idx]?.map PacketHeader.len).getD 0

/-- `p->header_count - 1`, which is unsigned. -/
def lastHeaderIdx : Nat :=
  match p.headers.length with
  | 0 => 4294967295
  | n + 1 => n

/-- `packet_is_linear`. The loop begins with the second header, and runs far past
the end of the list for a packet without headers. -/
def packetIsLinear : Bool :=
  (List.range' 1 (lastHeaderIdx p - 1)).all fun i =>
    headerStart p (i + 1) == u32 (headerStart p i + headerLen p i)

/-- The loop of `packet_is_linear` over the indexes that are left: the entries
of the header list it reads, and the answer. -/
def linearLoop (p : Packet) : List Nat → List Nat × Bool
  | [] => ([], true)
  | i :: is =>
    if headerStart p (i + 1) ≠ u32 (headerStart p i + headerLen p i) then ([i + 1, i], false)
    else ((i + 1) :: i :: (linearLoop p is).1, (linearLoop p is).2)

/-- `packet_is_linear` with the entries it reads. -/
def packetIsLinearReads : List Nat × Bool :=
  linearLoop p (List.range' 1 (lastHeaderIdx p - 1))

inductive PacketOp where
  | identifyHeader (type : ProtocolID) (offset len : Nat)
  | addHeader (idx : Nat) (type : ProtocolID) (len : Nat)
  | delHeader (idx : Nat)
  | clearHeaders
  | enlargeScratch
  deriving DecidableEq, Repr

/-- One call. The output is what the call returns, if anything. -/
def packetStep : PacketOp → Packet × Option Bool
  | .identifyHeader type offset len =>
    ((packetIdentifyHeader p type offset len).2, some (packetIdentifyHeader p type offset len).1)
  | .addHeader idx type len =>
    ((packetAddHeader p idx type len).2, some (packetAddHeader p idx type len).1)
  | .delHeader idx => (packetDelHeader p idx, none)
  | .clearHeaders => (packetClearHeaders p, none)
  | .enlargeScratch => (packetEnlargeScratch p, none)

theorem headerLen_of_lt {p : Packet} {idx : Nat} (h : idx < p.headers.length) :
    headerLen p idx = p.headers[idx].len := by
  unfold headerLen
  rw [List.getElem?_eq_getElem h]
  rfl

theorem headerStart_of_lt {p : Packet} {idx : Nat} (h : idx < p.headers.length) :
    headerStart p idx = p.headers[idx].start := by
  unfold headerStart
  rw [List.getElem?_eq_getElem h]
  rfl

theorem lastHeaderIdx_of_ne_nil {p : Packet} (hne : p.headers ≠ []) :
    lastHeaderIdx p = p.headers.length - 1 := by grind [lastHeaderIdx]

theorem packetIsLinear_iff {p : Packet} (hne : p.headers ≠ []) :
    packetIsLinear p = true ↔ ∀ i, 1 ≤ i → i + 1 < p.headers.length →
      headerStart p (i + 1) = u32 (headerStart p i + headerLen p i) := by
  unfold packetIsLinear
  rw [lastHeaderIdx_of_ne_nil hne, List.all_eq_true]
  constructor
  · intro h i hi hlt
    exact beq_iff_eq.mp (h i (List.mem_range'_1.mpr (by omega)))
  · intro h i hi
    rw [List.mem_range'_1] at hi
    exact beq_iff_eq.mpr (h i hi.1 (by omega))

theorem packetIdentifyHeader_cases (type : ProtocolID) (offset len : Nat) :
    packetIdentifyHeader p type offset len = (false, p) ∨ (packetIdentifyHeader p type offset len =
          (true, { p with headers := p.headers ++ [⟨type, u32 (p.start + offset), len⟩] }) ∧
        p.headers.length ≠ packetMaxHeaderNum ∧ u32 (offset + len) ≤ p.len) := by
  unfold packetIdentifyHeader
  grind

theorem packetAddHeader_cases (idx : Nat) (type : ProtocolID) (len : Nat) :
    packetAddHeader p idx type len = (false, p) ∨ (packetAddHeader p idx type len = (true, { p with
            scratchLen := u32 (p.scratchLen + len)
            headers := p.headers.insertIdx idx ⟨type, p.scratchLen, len⟩ }) ∧
        p.headers.length ≠ packetMaxHeaderNum ∧ idx ≤ p.headers.length ∧
        u32 (p.scratchLen + len) < p.start) := by
  unfold packetAddHeader scratchAlloc
  by_cases hfull : p.headers.length = packetMaxHeaderNum
  · rw [if_pos hfull]
    exact Or.inl rfl
  rw [if_neg hfull]
  grind

end Dnt
