import Dnt.Core.PacketSend
import Dnt.Theory.Packet.Layout

/-!
# Serializing and Gathering

Both ways to put a packet together give the octets of its headers in their order.
The copy goes to a buffer of the same size, with the usual space in front, so it needs
that much less in the packet, and a packet can have more.

## Main definitions

* `Serializes`: The copy has the octets of the headers, and is inside its buffer.
* `Gathered`: The ranges after some headers.

## Theorems

* `serializes_iff`: A packet can be copied just if it is as short as one that is received.
* `ifaceCommonSend_octets`: The ranges that are sent have the octets of the packet.
-/

namespace Dnt

open Mealy

variable {hs : List PacketHeader}

/-! ## The copy -/

def octetCount (p : Packet) : Nat :=
  (p.headers.map PacketHeader.len).sum

/-- The copy has the octets of the headers in their order, and no write is behind the end
of its buffer. -/
def Serializes (p : Packet) : Prop :=
  Memory.load (serializePacket p).buf (serializePacket p).start (serializePacket p).len =
      packetOctets p ∧
    ∀ w ∈ serializeStores p, ∀ i, w.Covers i → i < packetBufLen

variable {s : List Iovec × Option PacketHeader} {buf : Nat → UInt8} {p : Packet}
  {last : PacketHeader}

open List Memory

@[simp]
theorem length_octetsOfHeader (p : Packet) (h : PacketHeader) :
    (octetsOfHeader p h).length = h.len :=
  length_load _ _ _

theorem length_flatten_octetsOfHeader (p : Packet) (hs : List PacketHeader) :
    (hs.map (octetsOfHeader p)).flatten.length = (hs.map PacketHeader.len).sum := by
  rw [length_flatten, map_map]
  simp only [Function.comp_def, length_octetsOfHeader]

/-- As long as the length fits in 32 bits, the headers are written one behind the other. -/
theorem serializeLoop_eq (p : Packet) (dstlen : Nat)
    (h : dstlen + (hs.map PacketHeader.len).sum < 4294967296) : serializeLoop p dstlen hs =
      (blocks (packetStartOffset + dstlen) (hs.map (octetsOfHeader p)),
        dstlen + (hs.map PacketHeader.len).sum) := by
  induction hs generalizing dstlen with
  | nil => rfl
  | cons x hs ih =>
    rw [map_cons, sum_cons] at h
    have hlen : u32 (dstlen + x.len) = dstlen + x.len := u32_of_lt (by omega)
    rw [serializeLoop, hlen, ih _ (by omega), map_cons, map_cons, sum_cons,
      blocks, length_octetsOfHeader, Nat.add_assoc, Nat.add_assoc]

theorem serializeLoop_outside (p : Packet) (dstlen : Nat) (hdst : dstlen < 4294967296)
    (h : 4294967296 ≤ dstlen + (hs.map PacketHeader.len).sum) :
    ∃ w ∈ (serializeLoop p dstlen hs).1, w.Covers (packetStartOffset + 4294967295) := by
  induction hs generalizing dstlen with
  | nil =>
    rw [map_nil, sum_nil] at h
    omega
  | cons x hs ih =>
    rw [map_cons, sum_cons] at h
    by_cases hwrap : dstlen + x.len < 4294967296
    · rw [serializeLoop, u32_of_lt hwrap]
      obtain ⟨w, hw, hcovers⟩ := ih (dstlen + x.len) hwrap (by omega)
      exact ⟨w, mem_cons_of_mem _ hw, hcovers⟩
    · -- this header goes over the limit
      refine ⟨_, mem_cons_self, ?_, ?_⟩
      · exact Nat.add_le_add_left (by omega) packetStartOffset
      · rw [length_octetsOfHeader]
        simp only
        omega

theorem serializeLoop_headers (h : octetCount p < 4294967296) : serializeLoop p 0 p.headers =
      (blocks packetStartOffset (p.headers.map (octetsOfHeader p)), octetCount p) := by
  rw [serializeLoop_eq p 0 (by rw [Nat.zero_add]; exact h), Nat.add_zero, Nat.zero_add]
  rfl

theorem load_serializePacket (h : octetCount p < 4294967296) :
    load (serializePacket p).buf (serializePacket p).start (serializePacket p).len =
      packetOctets p := by
  have hcopy := load_storeAll_blocks (fun _ => 0) packetStartOffset
    (p.headers.map (octetsOfHeader p))
  rw [length_flatten_octetsOfHeader] at hcopy
  simp only [serializePacket, serializeStores, serializeLoop_headers h]
  exact hcopy

/-- A packet can be copied exactly if its headers are not longer than the part of a buffer
that packets are received in. -/
theorem serializes_iff (p : Packet) :
    Serializes p ↔ octetCount p ≤ packetBufLen - packetStartOffset := by
  by_cases hsmall : octetCount p < 4294967296
  · have hinside := Memory.covers_blocks_iff packetStartOffset (p.headers.map (octetsOfHeader p))
    rw [length_flatten_octetsOfHeader, ← octetCount] at hinside
    simp only [Serializes, load_serializePacket hsmall, true_and, serializeStores,
      serializeLoop_headers hsmall]
    unfold packetStartOffset at hinside ⊢
    unfold packetBufLen
    constructor
    · intro hall
      by_contra hlong
      -- the octet behind the buffer is written
      obtain ⟨w, hw, hcovers⟩ := (hinside 10000).mpr (by omega)
      exact absurd (hall w hw 10000 hcovers) (Nat.lt_irrefl _)
    · intro hfits w hw i hcovers
      have hrange := (hinside i).mp ⟨w, hw, hcovers⟩
      omega
  · constructor
    · rintro ⟨-, hall⟩
      obtain ⟨w, hw, hcovers⟩ := serializeLoop_outside p 0 (by decide)
        (by rw [Nat.zero_add]; exact Nat.le_of_not_lt hsmall)
      exact absurd (hall w hw _ hcovers) (by decide)
    · intro hfits
      unfold packetBufLen at hfits
      omega

def longestReceived : Packet :=
  { newPacket (fun _ => 0) with len := 8976 }

/-- It is read as an Ethernet frame, and a label is put in front. Or the node makes a packet
of 9000 octets. Copying writes behind the end of the buffer. -/
theorem longestReceived_not_serializes :
    Received longestReceived ∧
      EveryStep packetStep (fun p op => (packetStep p op).2 = some true) longestReceived
        [.identifyHeader .eth 0 14, .identifyHeader .payload 14 8962, .addHeader 0 .mpls 4] ∧
      ¬ Serializes (final packetStep longestReceived
        [.identifyHeader .eth 0 14, .identifyHeader .payload 14 8962, .addHeader 0 .mpls 4]) ∧
      ¬ Serializes (final packetStep (newPacket fun _ => 0)
        [.enlargeScratch, .addHeader 0 .payload 9000]) := by
  refine ⟨⟨rfl, rfl, by decide, by decide⟩, ?_, ?_, ?_⟩
  · exact ⟨by decide, by decide, by decide, trivial⟩
  · rw [serializes_iff]
    decide
  · rw [serializes_iff]
    decide

/-! ## The ranges -/

def rangeOctets (buf : Nat → UInt8) (iov : List Iovec) : List UInt8 :=
  iov.flatMap (Iovec.octets buf)

/-- The ranges after the headers `hs`. The last one ends where the last header does. -/
structure Gathered (buf : Nat → UInt8) (hs : List PacketHeader) (last : PacketHeader)
    (s : List Iovec × Option PacketHeader) : Prop where
  previous : s.2 = some last
  count : s.1.length ≤ hs.length
  octets : rangeOctets buf s.1 = hs.flatMap fun h => load buf h.start h.len
  ends : ∃ front v, s.1 = front ++ [v] ∧ v.base + v.len = last.start + last.len

theorem gathered_first (buf : Nat → UInt8) (h : PacketHeader) :
    Gathered buf [h] h (gatherStep ([], none) h) :=
  ⟨rfl, Nat.le_refl 1, rfl, [], ⟨h.start, h.len⟩, rfl, rfl⟩

theorem modify_length_append (front : List Iovec) (v : Iovec) (f : Iovec → Iovec) :
    (front ++ [v]).modify front.length f = front ++ [f v] := by
  induction front with
  | nil => rfl
  | cons w front ih =>
    rw [cons_append, length_cons, modify_succ_cons, ih, cons_append]

theorem Gathered.step (hg : Gathered buf hs last s) (h : PacketHeader)
    (hlast : last.start + last.len < 4294967296) : Gathered buf (hs ++ [h]) h (gatherStep s h) := by
  obtain ⟨front, v, hfront, hend⟩ := hg.ends
  have hcount := hg.count
  have hoctets := hg.octets
  simp only [gatherStep, hg.previous, u32_of_lt hlast]
  rw [hfront] at hcount hoctets ⊢
  simp only [rangeOctets, flatMap_append, flatMap_singleton, length_append,
    length_singleton] at hoctets hcount ⊢
  by_cases hnext : h.start = last.start + last.len
  · simp only [hnext, if_true, Nat.add_sub_cancel, modify_length_append]
    refine ⟨rfl, ?_, ?_, front, { v with len := v.len + h.len }, rfl, ?_⟩
    · simp only [length_append, length_singleton]
      omega
    · -- the longer range has the octets of both
      have hlonger : Iovec.octets buf { v with len := v.len + h.len } =
          Iovec.octets buf v ++ load buf h.start h.len := by
        simp only [Iovec.octets]
        rw [load_add, hend, hnext]
      simp [rangeOctets, hlonger, ← append_assoc, hoctets]
    · simp only
      omega
  · rw [if_neg hnext]
    refine ⟨rfl, ?_, ?_, front ++ [v], ⟨h.start, h.len⟩, rfl, rfl⟩
    · simp only [length_append, length_singleton]
      omega
    · have hnew : Iovec.octets buf ⟨h.start, h.len⟩ = load buf h.start h.len := rfl
      simp only [rangeOctets, flatMap_append, flatMap_singleton, hoctets, hnew]

theorem gathered_foldl {done : List PacketHeader} (hg : Gathered buf done last s)
    (hall : ∀ h ∈ last :: hs, h.start + h.len < 4294967296) :
    ∃ last', Gathered buf (done ++ hs) last' (hs.foldl gatherStep s) := by
  induction hs generalizing done last s with
  | nil =>
    rw [append_nil]
    exact ⟨last, hg⟩
  | cons h hs ih =>
    have hstep := hg.step h (hall last mem_cons_self)
    obtain ⟨last', hrest⟩ := ih hstep fun x hx => hall x (mem_cons_of_mem last hx)
    rw [append_assoc, singleton_append] at hrest
    exact ⟨last', hrest⟩

/-- For a packet that has headers, each of them a range of memory, there are at most 20
ranges, and their octets are those of the packet and of its copy. -/
theorem ifaceCommonSend_octets (p : Packet) (hsome : p.headers ≠ [])
    (hcount : p.headers.length ≤ packetMaxHeaderNum)
    (hrange : ∀ h ∈ p.headers, h.start + h.len < 4294967296) :
    ∃ iov, ifaceCommonSend p = some iov ∧ iov.length ≤ packetMaxHeaderNum ∧
      rangeOctets p.buf iov = packetOctets p ∧
      (octetCount p < 4294967296 → rangeOctets p.buf iov =
        Memory.load (serializePacket p).buf (serializePacket p).start (serializePacket p).len) := by
  obtain ⟨first, hs, hheaders⟩ := exists_cons_of_ne_nil hsome
  rw [hheaders] at hrange
  obtain ⟨last, hg⟩ := gathered_foldl (gathered_first p.buf first) hrange
  have hpositive : ¬ p.headers.length < 1 := by
    rw [hheaders]
    exact Nat.not_lt.mpr (Nat.le_add_left 1 hs.length)
  have hoctets : rangeOctets p.buf (p.headers.foldl gatherStep ([], none)).1 = packetOctets p := by
    rw [packetOctets, hheaders]
    exact hg.octets
  refine ⟨_, if_neg hpositive, ?_, hoctets, fun hsmall => ?_⟩
  · refine Nat.le_trans ?_ hcount
    rw [hheaders]
    exact hg.count
  · rw [hoctets, load_serializePacket hsmall]

/-- A packet with a header on the scratch space and three in the received octets, one of them
empty. Two of them are next to each other. -/
def fourHeaders : Packet :=
  { newPacket UInt8.ofNat with
    len := 60
    scratchLen := 4
    headers := [⟨.mpls, 0, 4⟩, ⟨.eth, 1024, 14⟩, ⟨.cvlan, 1038, 0⟩, ⟨.payload, 1042, 8⟩] }

theorem ifaceCommonSend_octets_fourHeaders :
    fourHeaders.headers ≠ [] ∧ fourHeaders.headers.length ≤ packetMaxHeaderNum ∧
      (∀ h ∈ fourHeaders.headers, h.start + h.len < 4294967296) ∧
      ∃ iov, ifaceCommonSend fourHeaders = some iov ∧ iov.length ≤ packetMaxHeaderNum ∧
        rangeOctets fourHeaders.buf iov = packetOctets fourHeaders ∧
        (octetCount fourHeaders < 4294967296 → rangeOctets fourHeaders.buf iov =
          Memory.load (serializePacket fourHeaders).buf (serializePacket fourHeaders).start
            (serializePacket fourHeaders).len) :=
  ⟨by decide, by decide, by decide,
    ifaceCommonSend_octets fourHeaders (by decide) (by decide) (by decide)⟩

example : ifaceCommonSend fourHeaders = some [⟨0, 4⟩, ⟨1024, 14⟩, ⟨1042, 8⟩] := by decide

end Dnt
