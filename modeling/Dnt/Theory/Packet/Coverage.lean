import Dnt.Theory.Packet.Internet

/-!
# What a Checksum Covers

The checksum of an ICMP, TCP or UDP header is one sum over pieces of memory, as far
as a length goes that is in the pseudo header, too. `payload_length` takes the
length of the header with the checksum off for each header in between. So it is
right just if these lengths add up to the same, modulo 65536.

## Main definitions

* `packetPieces`: The pieces of memory that a checksum is the sum of, with their addresses.
* `LengthConsistent`: The length fields of an IP header agree with the headers behind it.
* `ipPayloadLength`, `betweenLength`: The length of the IP payload, and that of the headers
  in it before the one with the checksum.

## Theorems

* `packetChecksum_eq_pieces`: The checksum of a packet is the folded sum of these pieces.
* `payloadLength_eq_iff`: The length in use is that of the headers from the one with the
  checksum on just if the headers in between have the right length together.
* `payloadLength_covers_iff`: The length in use and the number of octets that are summed up
  are both right just in this case.
-/

namespace Dnt

open OnesComplement

/-! ### The pieces -/

/-- What the loop over the headers adds, as far as a length goes. -/
def headerPieces (p : Packet) : List PacketHeader → Nat → List (Nat × List UInt8)
  | [], _ => []
  | h :: hs, len =>
    (h.start, Memory.load p.buf h.start (min len h.len)) :: headerPieces p hs (len - min len h.len)

/-- All octets of some headers. -/
def headerOctets (p : Packet) (hs : List PacketHeader) : List UInt8 :=
  hs.flatMap fun h => Memory.load p.buf h.start h.len

variable {cp : ChecksumParameters} {offset : Nat} {p : Packet}

open List

theorem headerOctets_cons (p : Packet) (h : PacketHeader) (hs : List PacketHeader) :
    headerOctets p (h :: hs) = Memory.load p.buf h.start h.len ++ headerOctets p hs :=
  flatMap_cons

variable (pseudoAddr : Nat)

/-- The addresses, and a pseudo header with this length. -/
def pseudoPieces (p : Packet) (cp : ChecksumParameters) (protoid : UInt8) (len : Nat) :
    List (Nat × List UInt8):=
  let iph := headerStart p cp.ipIdx
  let hi := UInt8.ofNat (len / 2 ^ 8)
  let lo := UInt8.ofNat len
  if cp.ipVersion = .ipv4 then
    [(iph + 12, Memory.load p.buf (iph + 12) 8), (pseudoAddr, [0, protoid, hi, lo])]
  else
    [(iph + 8, Memory.load p.buf (iph + 8) 32), (pseudoAddr, [0, 0, hi, lo, 0, 0, 0, protoid])]

/-- The pieces for a header other than IPv4, with a length for the pseudo header and for what
is behind it. -/
def checksumPieces (p : Packet) (cp : ChecksumParameters) (len : Nat) : List (Nat × List UInt8) :=
  match layer4Protoid cp.hdrProto with
  | none => headerPieces p (p.headers.drop cp.hdrIdx) len
  | some protoid =>
    pseudoPieces pseudoAddr p cp protoid len ++ headerPieces p (p.headers.drop cp.hdrIdx) len

/-- The length of an IPv4 header, as the header has it. -/
def ipv4Length (p : Packet) (iph : Nat) : Nat :=
  (p.buf iph).toNat % 2 ^ 4 * 4

def ipv4Octets (p : Packet) (iph : Nat) : List UInt8 :=
  Memory.load p.buf iph (ipv4Length p iph)

/-- What is summed up for a checksum. The checksum of an IPv4 header is over itself. -/
def packetPieces (p : Packet) (cp : ChecksumParameters) : List (Nat × List UInt8) :=
  if cp.hdrProto = .ipv4 then
    [(headerStart p cp.hdrIdx, ipv4Octets p (headerStart p cp.hdrIdx))]
  else checksumPieces pseudoAddr p cp (payloadLength p cp)

theorem csumChain_append (ps qs : List (Nat × List UInt8)) (sum : Nat) :
    csumChain (ps ++ qs) sum = csumChain qs (csumChain ps sum) :=
  foldl_append

theorem csumHeaders_eq_chain (p : Packet) (hdrIdx len sum : Nat) : csumHeaders p hdrIdx len sum =
      csumChain (headerPieces p (p.headers.drop hdrIdx) len) sum := by
  unfold csumHeaders
  generalize p.headers.drop hdrIdx = hs
  induction hs generalizing len sum with
  | nil => rfl
  | cons h hs ih => exact ih _ _

theorem pseudoCsum_eq_chain (p : Packet) (cp : ChecksumParameters) (protoid : UInt8) (len : Nat) :
    pseudoCsum pseudoAddr p cp protoid len =
      csumChain (pseudoPieces pseudoAddr p cp protoid len) 0 := by
  simp only [pseudoCsum, pseudoPieces]
  split_ifs
  · rfl
  · rfl

/-- The protocols with a checksum over the payload of an IP header. -/
def PayloadChecksum (proto : ProtocolID) : Prop :=
  proto = .icmpv4 ∨ proto = .icmpv6 ∨ proto = .tcp ∨ proto = .udp

theorem packetChecksum_eq_chain (p : Packet) (hproto : PayloadChecksum cp.hdrProto) :
    packetChecksum pseudoAddr p cp =
      csumFold (csumChain (checksumPieces pseudoAddr p cp (payloadLength p cp)) 0) := by
  have hlayer4 {protoid : UInt8} (hid : layer4Protoid cp.hdrProto = some protoid) :
      layer4Csum pseudoAddr p cp =
        csumFold (csumChain (checksumPieces pseudoAddr p cp (payloadLength p cp)) 0) := by
    simp only [layer4Csum, checksumPieces, hid]
    rw [csumChain_append, ← pseudoCsum_eq_chain, csumHeaders_eq_chain]
  rcases hproto with hproto | hproto | hproto | hproto
  · simp only [packetChecksum, hproto, icmpv4Csum, checksumPieces, layer4Protoid]
    rw [csumHeaders_eq_chain]
  · simp only [packetChecksum, hproto]
    exact hlayer4 (by rw [hproto]; rfl)
  · simp only [packetChecksum, hproto]
    exact hlayer4 (by rw [hproto]; rfl)
  · simp only [packetChecksum, hproto]
    exact hlayer4 (by rw [hproto]; rfl)

theorem packetChecksum_eq_pieces (p : Packet) (hoffset : checksumOffset cp.hdrProto = some offset) :
    packetChecksum pseudoAddr p cp = csumFold (csumChain (packetPieces pseudoAddr p cp) 0) := by
  have hpayload (h : PayloadChecksum cp.hdrProto) (hip : cp.hdrProto ≠ .ipv4) :
      packetChecksum pseudoAddr p cp =
        csumFold (csumChain (packetPieces pseudoAddr p cp) 0) := by
    rw [packetPieces, if_neg hip]
    exact packetChecksum_eq_chain pseudoAddr p h
  cases hproto : cp.hdrProto with
  | ipv4 =>
    simp only [packetChecksum, packetPieces, hproto, if_true]
    rfl
  | icmpv4 => exact hpayload (.inl hproto) (hproto ▸ nofun)
  | icmpv6 => exact hpayload (.inr (.inl hproto)) (hproto ▸ nofun)
  | tcp => exact hpayload (.inr (.inr (.inl hproto))) (hproto ▸ nofun)
  | udp => exact hpayload (.inr (.inr (.inr hproto))) (hproto ▸ nofun)
  | _ =>
    rw [hproto] at hoffset
    cases hoffset

theorem chainOctets_headerPieces (p : Packet) (hs : List PacketHeader) (len : Nat) :
    chainOctets (headerPieces p hs len) = (headerOctets p hs).take len := by
  induction hs generalizing len with
  | nil => exact (take_nil).symm
  | cons h hs ih =>
    have hrest : len - min len h.len = len - h.len := by omega
    rw [headerPieces, chainOctets_cons, ih, hrest, headerOctets_cons, take_append,
      Memory.length_load, ← Memory.load_min]

theorem length_headerOctets (p : Packet) (hs : List PacketHeader) :
    (headerOctets p hs).length = (hs.map PacketHeader.len).sum := by
  induction hs with
  | nil => rfl
  | cons h hs ih =>
    rw [headerOctets_cons, length_append, Memory.length_load, map_cons, sum_cons, ih]

/-! ### The length -/

/-- The length fields of the IP header agree with the headers of the packet. -/
def LengthConsistent (p : Packet) (ipIdx : Nat) (ipVersion : ProtocolID) : Prop :=
  let iph := headerStart p ipIdx
  let rest := ((p.headers.drop (ipIdx + 1)).map PacketHeader.len).sum
  if ipVersion = .ipv4 then
    (p.buf iph).toNat % 2 ^ 4 * 4 = headerLen p ipIdx ∧
      number16 p.buf (iph + 2) = headerLen p ipIdx + rest
  else number16 p.buf (iph + 4) = rest

/-- The length of what is behind the IP header, as the IP header has it. -/
def ipPayloadLength (p : Packet) (cp : ChecksumParameters) : Nat :=
  let iph := headerStart p cp.ipIdx
  if cp.ipVersion = .ipv4 then number16 p.buf (iph + 2) - (p.buf iph).toNat % 2 ^ 4 * 4
  else number16 p.buf (iph + 4)

/-- The headers between the IP header and the one with the checksum. -/
def headersBetween (p : Packet) (cp : ChecksumParameters) : List PacketHeader :=
  (p.headers.drop (cp.ipIdx + 1)).take (cp.hdrIdx - (cp.ipIdx + 1))

def betweenLength (p : Packet) (cp : ChecksumParameters) : Nat :=
  ((headersBetween p cp).map PacketHeader.len).sum

theorem number16_lt (buf : Nat → UInt8) (i : Nat) : number16 buf i < 2 ^ 16 := by
  have := (buf i).toNat_lt
  have := (buf (i + 1)).toNat_lt
  unfold number16
  omega

theorem sub16_add_left {len rest : Nat} (hlt : len + rest < 2 ^ 16) :
    sub16 (len + rest) len = rest := by
  unfold sub16
  omega

theorem sub16_lt (a b : Nat) : sub16 a b < 2 ^ 16 :=
  Nat.mod_lt _ (by decide)

/-- Taking a number off `k` times modulo 65536. -/
theorem foldl_sub16_add {c : Nat} (i : Nat) {k : Nat} (a : Nat) (ha : a < 2 ^ 16) :
    (List.range' i k).foldl (fun len _ => sub16 len c) a < 2 ^ 16 ∧
      (List.range' i k).foldl (fun len _ => sub16 len c) a + k * c ≡ a [MOD 2 ^ 16] := by
  induction k generalizing i a with
  | zero =>
    rw [Nat.zero_mul]
    exact ⟨ha, rfl⟩
  | succ k ih =>
    obtain ⟨hlt, hmod⟩ := ih (i + 1) (sub16 a c) (sub16_lt a c)
    have hstep : sub16 a c + c ≡ a [MOD 2 ^ 16] := by
      unfold sub16 Nat.ModEq
      omega
    rw [List.range'_succ, foldl_cons]
    refine ⟨hlt, ?_⟩
    rw [Nat.succ_mul, ← Nat.add_assoc]
    exact (hmod.add_right c).trans hstep

section Length

variable {p : Packet} {cp : ChecksumParameters} (hip : cp.ipIdx < cp.hdrIdx)
  (hcons : LengthConsistent p cp.ipIdx cp.ipVersion)

include hcons in
theorem ipPayloadLength_of_consistent :
    ipPayloadLength p cp = ((p.headers.drop (cp.ipIdx + 1)).map PacketHeader.len).sum ∧
      ipPayloadLength p cp < 2 ^ 16 := by
  simp only [LengthConsistent] at hcons
  simp only [ipPayloadLength]
  by_cases hversion : cp.ipVersion = .ipv4
  · rw [if_pos hversion] at hcons ⊢
    have hlt := number16_lt p.buf (headerStart p cp.ipIdx + 2)
    omega
  · rw [if_neg hversion] at hcons ⊢
    exact ⟨hcons, number16_lt p.buf _⟩

include hcons in
/-- For each header in between, the length of the header with the checksum is taken off. -/
theorem payloadLength_add : payloadLength p cp < 2 ^ 16 ∧
      payloadLength p cp + (cp.hdrIdx - (cp.ipIdx + 1)) * headerLen p cp.hdrIdx ≡
        ipPayloadLength p cp [MOD 2 ^ 16] := by
  have hlen : (if cp.ipVersion = .ipv4 then
        sub16 (number16 p.buf (headerStart p cp.ipIdx + 2))
          ((p.buf (headerStart p cp.ipIdx)).toNat % 2 ^ 4 * 4)
      else number16 p.buf (headerStart p cp.ipIdx + 4)) = ipPayloadLength p cp := by
    simp only [LengthConsistent] at hcons
    simp only [ipPayloadLength]
    by_cases hversion : cp.ipVersion = .ipv4
    · rw [if_pos hversion] at hcons ⊢
      rw [if_pos hversion, hcons.1, hcons.2, Nat.add_sub_cancel_left]
      have hlt := number16_lt p.buf (headerStart p cp.ipIdx + 2)
      rw [hcons.2] at hlt
      exact sub16_add_left hlt
    · rw [if_neg hversion, if_neg hversion]
  have hlt := (ipPayloadLength_of_consistent hcons).2
  rw [payloadLength, hlen]
  exact foldl_sub16_add _ _ hlt

include hip hcons in
theorem ipPayloadLength_eq : ipPayloadLength p cp =
      betweenLength p cp + ((p.headers.drop cp.hdrIdx).map PacketHeader.len).sum := by
  have hdrop : p.headers.drop cp.hdrIdx =
      (p.headers.drop (cp.ipIdx + 1)).drop (cp.hdrIdx - (cp.ipIdx + 1)) := by
    rw [drop_drop]
    congr 1
    omega
  rw [(ipPayloadLength_of_consistent hcons).1, betweenLength, headersBetween, hdrop,
    ← sum_append, ← map_append, take_append_drop]

include hip hcons in
theorem payloadLength_eq_iff :
    payloadLength p cp = ((p.headers.drop cp.hdrIdx).map PacketHeader.len).sum ↔
      (cp.hdrIdx - (cp.ipIdx + 1)) * headerLen p cp.hdrIdx ≡ betweenLength p cp [MOD 2 ^ 16] := by
  obtain ⟨hlt, hmod⟩ := payloadLength_add hcons
  have hsplit := ipPayloadLength_eq hip hcons
  have hlimit := (ipPayloadLength_of_consistent hcons).2
  generalize ((p.headers.drop cp.hdrIdx).map PacketHeader.len).sum = rest at hsplit
  rw [hsplit, Nat.add_comm (betweenLength p cp)] at hmod
  constructor
  · intro heq
    rw [heq] at hmod
    exact Nat.ModEq.add_left_cancel' _ hmod
  · intro hlen
    have hrest := Nat.ModEq.add_right_cancel' _
      ((hlen.symm.add_left (payloadLength p cp)).trans hmod)
    exact Nat.ModEq.eq_of_lt_of_lt hrest hlt (by omega)

/-- For a packet with a consistent IP header: the length in the pseudo header and of what
is summed up is that of the IP payload without the headers in between, just if their
lengths add up to as much as the same number of headers like the one with the checksum. -/
theorem payloadLength_covers_iff (p : Packet) {cp : ChecksumParameters}
    (hproto : PayloadChecksum cp.hdrProto) (hip : cp.ipIdx < cp.hdrIdx)
    (hcons : LengthConsistent p cp.ipIdx cp.ipVersion) :
    packetChecksum pseudoAddr p cp =
        csumFold (csumChain (checksumPieces pseudoAddr p cp (payloadLength p cp)) 0) ∧
      chainOctets (headerPieces p (p.headers.drop cp.hdrIdx) (payloadLength p cp)) =
        (headerOctets p (p.headers.drop cp.hdrIdx)).take (payloadLength p cp) ∧
      ((payloadLength p cp = ipPayloadLength p cp - betweenLength p cp ∧
          (chainOctets (headerPieces p (p.headers.drop cp.hdrIdx) (payloadLength p cp))).length =
            ipPayloadLength p cp - betweenLength p cp) ↔
        (cp.hdrIdx - (cp.ipIdx + 1)) * headerLen p cp.hdrIdx ≡ betweenLength p cp
          [MOD 2 ^ 16]) := by
  have hoctets := chainOctets_headerPieces p (p.headers.drop cp.hdrIdx) (payloadLength p cp)
  refine ⟨packetChecksum_eq_chain pseudoAddr p hproto, hoctets, ?_⟩
  rw [← payloadLength_eq_iff hip hcons, hoctets, length_take, length_headerOctets,
    ipPayloadLength_eq hip hcons, Nat.add_sub_cancel_left]
  refine ⟨And.left, fun heq => ⟨heq, ?_⟩⟩
  rw [heq, Nat.min_self]

end Length

/-- One IPv4 header in another, and TCP: the header in between is as long as the last one. -/
def nestedOctets : List UInt8 :=
  [0x45, 0, 0, 60, 0, 1, 0, 0, 64, 4, 0, 0, 10, 0, 0, 1, 10, 0, 0, 2,
   0x45, 0, 0, 40, 0, 1, 0, 0, 64, 6, 0, 0, 10, 1, 0, 1, 10, 1, 0, 2,
   0x30, 0x39, 0, 80, 0, 0, 0, 1, 0, 0, 0, 0, 0x50, 2, 0x20, 0, 0, 0, 0, 0]

def nestedPacket : Packet :=
  { buf := fun i => nestedOctets.getD i 0
    start := 0
    len := 60
    scratchLen := 0
    headers := [⟨.ipv4, 0, 20⟩, ⟨.ipv4, 20, 20⟩, ⟨.tcp, 40, 20⟩] }

theorem payloadLength_covers_nested :
    LengthConsistent nestedPacket 0 .ipv4 ∧
      payloadLength nestedPacket ⟨2, .tcp, 0, .ipv4⟩ =
        ipPayloadLength nestedPacket ⟨2, .tcp, 0, .ipv4⟩ -
          betweenLength nestedPacket ⟨2, .tcp, 0, .ipv4⟩ := by
  have hcons : LengthConsistent nestedPacket 0 .ipv4 := ⟨by decide, by decide⟩
  have hproto : PayloadChecksum (ChecksumParameters.mk 2 .tcp 0 .ipv4).hdrProto :=
    .inr (.inr (.inl rfl))
  have hiff := (payloadLength_covers_iff 0 nestedPacket hproto (by decide) hcons).2.2
  exact ⟨hcons, (hiff.mpr (by decide)).1⟩

def tunnelOctets : List UInt8 :=
  [0x45, 0, 0, 44, 0, 1, 0, 0, 64, 6, 0, 0, 10, 0, 0, 1, 10, 0, 0, 2,
   0, 0, 0, 7,
   0x30, 0x39, 0, 80, 0, 0, 0, 1, 0, 0, 0, 0, 0x50, 2, 0x20, 0, 0, 0, 0, 0]

def tunnelPacket : Packet :=
  { buf := fun i => tunnelOctets.getD i 0
    start := 0
    len := 44
    scratchLen := 0
    headers := [⟨.ipv4, 0, 20⟩, ⟨.dcw, 20, 4⟩, ⟨.tcp, 24, 20⟩] }

def tunnelParameters : ChecksumParameters :=
  ⟨2, .tcp, 0, .ipv4⟩

/-- Of 20 octets of a TCP header behind a control word, 4 are covered. -/
theorem payloadLength_tunnel :
    LengthConsistent tunnelPacket 0 .ipv4 ∧
      ipPayloadLength tunnelPacket tunnelParameters -
        betweenLength tunnelPacket tunnelParameters = 20 ∧
      payloadLength tunnelPacket tunnelParameters = 4 ∧
      (chainOctets (headerPieces tunnelPacket (tunnelPacket.headers.drop 2)
        (payloadLength tunnelPacket tunnelParameters))).length = 4 :=
  ⟨⟨by decide, by decide⟩, by decide, by decide, by decide⟩

end Dnt
