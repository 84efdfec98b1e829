import Dnt.Core.Checksum
import Dnt.Core.ConfOam
import Dnt.Core.Json
import Dnt.Core.TimeUtils

/-!
# Maintenance Points

How maintenance points write messages into packets and read them, after
`oam_maintenance.c`. A message is a JSON text behind a fixed number of octets that
identify the request, in IPv6 with ICMPv6 inside, an MPLS pseudowire, or Ethernet
with a VLAN tag and perhaps an R-TAG.

## Main definitions

* `OamMaintenancePoint`, `OamRequest`: A point, and a request that it sends.
* `mpPackMessageHeader`, `mpPackMessagePayload`: Writing a message. What is written where
  is a list of writes, so that one can ask whether all of them are inside the buffer.
* `mpUnpackMessage`: Reading it.

## Theorems

* `mpPackMessagePayload_eq`: A packet with a message written into it.
-/

namespace Dnt

inductive OamMpType where
  | start
  | stop
  | intermediate
  deriving DecidableEq, Repr

inductive OamMpEncap where
  | tsn
  | pw
  | srv6
  deriving DecidableEq, Repr

def oamEncap (protostack : List ProtocolID) : OamMpEncap :=
  match protostack.head? with
  | some .eth => .tsn
  | some .mpls => .pw
  | _ => .srv6

/-- A maintenance point. It is on one of the stacks the configuration allows.
The address is a union in the source and begins with the locator, the label,
or the destination and the VLAN tag. -/
structure OamMaintenancePoint where
  name : String
  streamName : String
  type : OamMpType
  level : Nat
  protostack : List ProtocolID
  address : Nat → UInt8
  protostack_mem : protostack ∈ oamPossibleProtostacks

def OamMaintenancePoint.encap (mp : OamMaintenancePoint) : OamMpEncap :=
  oamEncap mp.protostack

structure OamRequest where
  type : String
  ttl : UInt8
  sessionId : UInt8
  seq : UInt8
  level : UInt8
  nodeId : UInt32
  /-- Set in a ping that a remote ping asked for. -/
  originatorStream : Option String
  originatorSessionId : UInt32
  deriving DecidableEq, Repr

variable (mp : OamMaintenancePoint) (p : Packet) (req : OamRequest)

/-- The session a request is known by. The originator's is cut to an octet. -/
def OamRequest.session : UInt8 :=
  if req.originatorStream.isSome = true then UInt8.ofNat req.originatorSessionId.toNat
  else req.sessionId

structure SendContext where
  /-- The default OAM interface, if there is one, and its address, if it is an
      IPv6 address. -/
  oamif : Option (Option (Nat → UInt8))
  /-- What is on the stack where the address is put. -/
  sa6 : Nat → UInt8
  sendtime : Timespec

def SendContext.saddr (env : SendContext) : Nat → UInt8 :=
  match env.oamif with
  | none => env.sa6
  | some none => fun _ => 0
  | some (some addr) => addr

/-- A packet with the two properties that are set together with its headers. The
sequence word is in host order. -/
structure OamPacket where
  packet : Packet
  ttl : UInt8
  sequence : Nat

def newOamPacket (buf : Nat → UInt8) : OamPacket :=
  ⟨newPacket buf, 0, 0⟩

def oamChannel : Nat := 0x7fff

/-- Names of message members that are in the headers instead. -/
def achKeys : List String :=
  ["version", "seq", "channel", "nodeid", "level", "flags", "session"]

/-- An octet of a number. -/
def octet (n : Nat) : UInt8 :=
  UInt8.ofNat n

/-- Several headers added one behind the other, from `idx` on. Whether there was
room for them is not looked at. -/
def packetAddHeaders : Packet → Nat → List (ProtocolID × Nat) → Packet
  | p, _, [] => p
  | p, idx, h :: hs => packetAddHeaders (packetAddHeader p idx h.1 h.2).2 (idx + 1) hs

/-! ## Packing headers -/

def requestMembers (env : SendContext) (req : OamRequest) : JsonObject :=
  jsonInsertAll [] [("type", .string req.type), ("code", .string "request"),
    ("send_s", .number env.sendtime.tvSec), ("send_ns", .number env.sendtime.tvNsec)]

/-- The writes of `pack_srv6_message_header`, for headers at `sid`, `ipv6` and
`icmpv6`. The address is copied before the sequence number is put into its
last octet; the `o` bit is set in what is there. -/
def srv6HeaderStores (env : SendContext) (mp : OamMaintenancePoint) (req : OamRequest)
    (sid ipv6 icmpv6 : Nat) : List (Store UInt8) :=
  [⟨sid, [0x60, 0, 0, 0]⟩,
   ⟨sid + 6, [41, req.ttl]⟩,
   ⟨sid + 8, List.replicate 16 0⟩,
   ⟨sid + 24, Memory.load mp.address 0 16⟩,
   ⟨sid + 39, [req.seq]⟩,
   ⟨sid + 36, [mp.address 12 ||| 1]⟩,
   ⟨ipv6, [0x60, 0, 0, 0]⟩,
   ⟨ipv6 + 6, [58, req.ttl]⟩,
   ⟨ipv6 + 8, Memory.load env.saddr 0 16⟩,
   ⟨ipv6 + 24, List.replicate 15 0 ++ [1]⟩,
   ⟨icmpv6, [128, 0]⟩,
   ⟨icmpv6 + 4, [0, octet ((req.level.toNat &&& 7) <<< 4 ||| (req.session.toNat &&& 15)), 0,
     req.seq]⟩]

def packSrv6MessageHeader (env : SendContext) (mp : OamMaintenancePoint) (p : Packet)
    (req : OamRequest) : OamPacket × JsonObject :=
  let p := packetAddHeaders (packetEnlargeScratch (packetClearHeaders p)) 0
    [(.ipv6, 40), (.ipv6, 40), (.icmpv6, 8), (.payload, 0)]
  let stores := srv6HeaderStores env mp req (headerStart p 0) (headerStart p 1) (headerStart p 2)
  ({ packet := { p with buf := Memory.storeAll p.buf stores }
     ttl := req.ttl
     sequence := req.seq.toNat },
   requestMembers env req)

def dachOctets : List UInt8 :=
  let nodeid := req.nodeId.toNat
  [0x10, req.seq, octet (oamChannel >>> 8), octet oamChannel,
   octet (nodeid >>> 12), octet (nodeid >>> 4),
   octet ((nodeid &&& 15) <<< 4 + (req.level.toNat &&& 7) <<< 1),
   octet (req.session.toNat &&& 15)]

def pwHeaderStores (mpls oam : Nat) : List (Store UInt8) :=
  [⟨mpls, [mp.address 0, mp.address 1, mp.address 2 ||| 1, req.ttl]⟩,
   ⟨oam, dachOctets req⟩]

def sequenceOctets (octets : List UInt8) : Nat :=
  (octets.take 4).foldl (fun n a => n * 2 ^ 8 + a.toNat) 0

def packPwMessageHeader (env : SendContext) (mp : OamMaintenancePoint) (p : Packet)
    (req : OamRequest) : OamPacket × JsonObject :=
  let p := packetAddHeaders (packetEnlargeScratch (packetClearHeaders p)) 0
    [(.mpls, 4), (.oam, 8), (.payload, 0)]
  let stores := pwHeaderStores mp req (headerStart p 0) (headerStart p 1)
  ({ packet := { p with buf := Memory.storeAll p.buf stores }
     ttl := req.ttl
     sequence := sequenceOctets (dachOctets req) },
   requestMembers env req)

/-- The second header of a stack on Ethernet, a C-VLAN or S-VLAN tag. -/
def OamMaintenancePoint.vlanProto : ProtocolID :=
  mp.protostack.getD 1 .payload

def OamMaintenancePoint.hasRtag : Bool :=
  mp.protostack.getD 2 .payload = .rtag

def rtagOctets : List UInt8 :=
  [0x10, req.seq, 0, octet (req.session.toNat &&& 15), 0x89, 0x02]

/-- The addresses of a TSN packet. The node is the end of the source address. -/
def tsnAddressStores (eth vlan : Nat) : List (Store UInt8) :=
  let nodeid := req.nodeId.toNat
  [⟨eth, Memory.load mp.address 0 6⟩,
   ⟨eth + 6, [0, 0, octet (nodeid >>> 24), octet (nodeid >>> 16), octet (nodeid >>> 8),
     octet nodeid]⟩,
   ⟨eth + 12, if mp.vlanProto = .cvlan then [0x81, 0x00] else [0x88, 0xa8]⟩,
   ⟨vlan, [mp.address 6, mp.address 7]⟩]

def cfmStores (cfm : Nat) : List (Store UInt8) :=
  [⟨cfm, [octet (req.level.toNat <<< 5), 128, 0, 0]⟩,
   ⟨cfm + 4, [3, 0, 0, 0]⟩]

def packTsnMessageHeader (env : SendContext) (mp : OamMaintenancePoint) (p : OamPacket)
    (req : OamRequest) : OamPacket × JsonObject :=
  let q := packetAddHeaders (packetEnlargeScratch (packetClearHeaders p.packet)) 0
    [(.eth, 14), (mp.vlanProto, (protocolFromId mp.vlanProto).bytelength)]
  let vlan := headerStart q 1
  let addresses := tsnAddressStores mp req (headerStart q 0) vlan
  let filled :=
    if mp.hasRtag = true then
      let q := packetAddHeaders q 2 [(.rtag, 6), (.payload, 8)]
      let stores := addresses ++
        [⟨vlan + 2, [0xf1, 0xc1]⟩, ⟨headerStart q 2, rtagOctets req⟩] ++
        cfmStores req (headerStart q 3)
      { packet := { q with buf := Memory.storeAll q.buf stores }
        ttl := req.ttl
        sequence := sequenceOctets (rtagOctets req) }
    else
      let q := packetAddHeaders q 2 [(.payload, 4)]
      let stores := addresses ++ [⟨vlan + 2, [0x89, 0x02]⟩] ++ cfmStores req (headerStart q 2)
      { packet := { q with buf := Memory.storeAll q.buf stores }
        ttl := req.ttl
        -- there is nothing to be written to a header later
        sequence := p.sequence }
  (filled, requestMembers env req)

def mpPackMessageHeader (env : SendContext) (mp : OamMaintenancePoint) (p : OamPacket)
    (req : OamRequest) : OamPacket × JsonObject :=
  match mp.encap with
  | .srv6 => packSrv6MessageHeader env mp p.packet req
  | .pw => packPwMessageHeader env mp p.packet req
  | .tsn => packTsnMessageHeader env mp p req

/-! ## Packing payloads -/

/-- The last header grows by the difference of the lengths. The old length is
that of the area the headers are in. -/
def updateLength (newLen : Nat) : Packet :=
  let grow (old : Nat) (h : PacketHeader) : PacketHeader :=
    { h with len := u32 (h.len + (u32 newLen + (2 ^ 32 - old))) }
  if headerStart p 0 < p.start then
    -- data is on the scratch
    { p with
      headers := p.headers.modify (p.headers.length - 1) (grow p.scratchLen)
      scratchLen := u32 newLen }
  else
    -- data is in the receive area
    { p with headers := p.headers.modify (p.headers.length - 1) (grow p.len), len := u32 newLen }

def stripAchKeys (msg : JsonObject) : JsonObject :=
  jsonRemoveAll msg achKeys

def stackLength (protostack : List ProtocolID) : Nat :=
  (protostack.map fun id => (protocolFromId id).bytelength).sum

/-- The parameters of the checksum that `pack_srv6_payload` computes. -/
def icmpv6Checksum : ChecksumParameters :=
  ⟨2, .icmpv6, 1, .ipv6⟩

def srv6TextStores (text : List UInt8) : List (Store UInt8) :=
  [⟨headerStart p 2 + 8, text⟩,
   ⟨headerStart p 1 + 4, [octet ((8 + text.length) >>> 8), octet (8 + text.length)]⟩]

/-- The packet before its checksum is computed. -/
def srv6Filled (text : List UInt8) : Packet :=
  updateLength { p with buf := Memory.storeAll p.buf (srv6TextStores p text) }
    (8 + text.length + (headerLen p 0 + headerLen p 1))

def packSrv6Payload (pseudoAddr : Nat) (lib : JsonLibrary) (p : Packet) (msg : JsonObject) :
    Option Packet :=
  if packetIsLinear p = false then none
  else (lib.jsonSerialize (.object msg)).map fun text =>
    checksumCompute pseudoAddr (srv6Filled p text) icmpv6Checksum

def pwTextStores (text : List UInt8) : List (Store UInt8) :=
  [⟨headerStart p 0 + 12, text⟩]

def packPwPayload (lib : JsonLibrary) (p : Packet) (msg : JsonObject) : Option Packet :=
  if packetIsLinear p = false then none
  else (lib.jsonSerialize (.object (stripAchKeys msg))).map fun text =>
    updateLength { p with buf := Memory.storeAll p.buf (pwTextStores p text) } (12 + text.length)

def tsnTextStores (text : List UInt8) : List (Store UInt8) :=
  let tlv := headerStart p 0 + stackLength mp.protostack + 4
  [⟨tlv + 1, [octet (text.length >>> 8), octet text.length]⟩,
   ⟨tlv + 3, text ++ [0]⟩]

def packTsnPayload (lib : JsonLibrary) (mp : OamMaintenancePoint) (p : Packet)
    (msg : JsonObject) : Option Packet :=
  if packetIsLinear p = false then none
  else (lib.jsonSerialize (.object (stripAchKeys msg))).map fun text =>
    updateLength { p with buf := Memory.storeAll p.buf (tsnTextStores mp p text) }
      (stackLength mp.protostack + 4 + 3 + text.length + 1)

def mpPackMessagePayload (pseudoAddr : Nat) (lib : JsonLibrary) (mp : OamMaintenancePoint)
    (p : Packet) (msg : JsonObject) : Option Packet :=
  match mp.encap with
  | .srv6 => packSrv6Payload pseudoAddr lib p msg
  | .pw => packPwPayload lib p msg
  | .tsn => packTsnPayload lib mp p msg

def OamMaintenancePoint.payloadMembers (msg : JsonObject) : JsonObject :=
  match mp.encap with
  | .srv6 => msg
  | _ => stripAchKeys msg

def mpPayloadStores (pseudoAddr : Nat) (mp : OamMaintenancePoint) (p : Packet)
    (text : List UInt8) : List (Store UInt8) :=
  match mp.encap with
  | .srv6 =>
    srv6TextStores p text ++ checksumStores pseudoAddr (srv6Filled p text) icmpv6Checksum
  | .pw => pwTextStores p text
  | .tsn => tsnTextStores mp p text

def mpNewLength (text : List UInt8) : Nat :=
  match mp.encap with
  | .srv6 => 8 + text.length + (headerLen p 0 + headerLen p 1)
  | .pw => 12 + text.length
  | .tsn => stackLength mp.protostack + 4 + 3 + text.length + 1

/-! ## Unpacking -/

def jsonNat (n : Nat) : JsonValue :=
  .number n

/-- The members an SRv6 packet carries in its headers. The node is known by the
last two octets of the source address. -/
def srv6Members (buf : Nat → UInt8) (ipv6 : Nat) : List (String × JsonValue) :=
  let icmp6 := ipv6 + 40
  [("session", jsonNat ((buf (icmp6 + 5)).toNat &&& 15)),
   ("seq", jsonNat (buf (icmp6 + 7)).toNat),
   ("level", jsonNat ((buf (icmp6 + 5)).toNat >>> 4 &&& 7)),
   ("nodeid", jsonNat ((buf (ipv6 + 23)).toNat <<< 8 ||| (buf (ipv6 + 22)).toNat))]

/-- `INTERPRET_DACH`. -/
def dachMembers (buf : Nat → UInt8) (dach : Nat) : List (String × JsonValue) :=
  let header (i : Nat) : Nat := (buf (dach + i)).toNat
  [("version", jsonNat (header 0 &&& 15)),
   ("seq", jsonNat (header 1)),
   ("channel", jsonNat (header 2 <<< 8 + header 3)),
   ("nodeid", jsonNat (header 4 <<< 12 + header 5 <<< 4 + header 6 >>> 4)),
   ("level", jsonNat (header 6 >>> 1 &&& 7)),
   ("flags", jsonNat ((header 6 &&& 1) <<< 4 + header 7 >>> 4)),
   ("session", jsonNat (header 7 &&& 15))]

/-- The members a TSN packet carries. The numbers of the request are in the
R-TAG, if the packet has one. -/
def tsnMembers (buf : Nat → UInt8) (eth : Nat) (rtag : Option Nat) (cfm : Nat) :
    List (String × JsonValue) :=
  let smac (i : Nat) : Nat := (buf (eth + 6 + i)).toNat
  [("level", jsonNat ((buf cfm).toNat >>> 5)),
   ("nodeid", jsonNat (smac 2 <<< 24 + smac 3 <<< 16 + smac 4 <<< 8 + smac 5))] ++
    match rtag with
    | none => []
    | some rtag =>
      [("seq", jsonNat (buf (rtag + 1)).toNat),
       ("session", jsonNat ((buf (rtag + 3)).toNat &&& 15))]

def parseMessage (lib : JsonLibrary) (text : List UInt8) (members : List (String × JsonValue)) :
    Option JsonObject :=
  match lib.jsonParse text with
  | some (.object js) => some (jsonInsertAll js members)
  | _ => none

def unpackSrv6Message (lib : JsonLibrary) (p : Packet) : Option JsonObject :=
  let ipv6 := headerStart p 1
  if p.headers.length < 3 then none
  else if packetIsLinear p = false then none
  else if p.buf (headerStart p 0 + 6) ≠ 41 then none
  else if p.buf (ipv6 + 6) ≠ 58 then none
  else if packetLength p < 88 then none
  else parseMessage lib (Memory.load p.buf (ipv6 + 48) (packetLength p - 88))
    (srv6Members p.buf ipv6)

def unpackPwMessage (lib : JsonLibrary) (p : Packet) : Option JsonObject :=
  let mpls := headerStart p 0
  if p.headers.length < 2 then none
  else if packetIsLinear p = false then none
  else if packetLength p < 12 then none
  else parseMessage lib (Memory.load p.buf (mpls + 12) (packetLength p - 12))
    (dachMembers p.buf (mpls + 4))

def announcesRtag : Bool :=
  let vlan := headerStart p 0 + 14
  p.buf (vlan + 2) = 0xf1 && p.buf (vlan + 3) = 0xc1

def cfmStart : Nat :=
  headerStart p 0 + 18 + if announcesRtag p = true then 6 else 0

/-- `unpack_tsn_message`. A length field that does not agree with the length of
the packet is only logged. -/
def unpackTsnMessage (lib : JsonLibrary) (p : Packet) : Option JsonObject :=
  let eth := headerStart p 0
  let cfm := cfmStart p
  let headerLen := cfm - eth + 7
  if p.headers.length < 2 then none
  else if packetIsLinear p = false then none
  else if packetLength p < 25 then none
  else if packetLength p < headerLen + 1 then none
  else parseMessage lib (Memory.load p.buf (cfm + 7) (packetLength p - headerLen - 1))
    (tsnMembers p.buf eth (if announcesRtag p = true then some (eth + 18) else none) cfm)

def mpUnpackMessage (lib : JsonLibrary) (mp : OamMaintenancePoint) (p : Packet) :
    Option JsonObject :=
  match mp.encap with
  | .srv6 => unpackSrv6Message lib p
  | .pw => unpackPwMessage lib p
  | .tsn => unpackTsnMessage lib p

/-! ## Levels and time to live -/

/-- The level of the packet minus that of the point, or -1. -/
def compareSrv6Level : Int :=
  if p.headers.length < 2 then -1
  else if packetIsLinear p = false then -1
  else ((p.buf (headerStart p 1 + 45)).toNat >>> 4 &&& 7 : Nat) - (mp.level : Int)

def comparePwLevel : Int :=
  if p.headers.length < 2 then -1
  else if packetIsLinear p = false then -1
  else if packetLength p < 12 then -1
  else ((p.buf (headerStart p 0 + 10)).toNat >>> 1 &&& 7 : Nat) - (mp.level : Int)

def compareTsnLevel : Int :=
  if p.headers.length < 2 then -1
  else if packetIsLinear p = false then -1
  else if packetLength p < 18 then -1
  else if packetLength p < cfmStart p - headerStart p 0 + 4 then -1
  else ((p.buf (cfmStart p)).toNat >>> 5 : Nat) - (mp.level : Int)

def mpCompareLevel : Int :=
  match mp.encap with
  | .srv6 => compareSrv6Level mp p
  | .pw => comparePwLevel mp p
  | .tsn => compareTsnLevel mp p

/-- The time to live. A TSN packet has none. -/
def mpGetTtl : UInt8 :=
  match mp.encap with
  | .srv6 => if p.headers.length < 2 then 255 else p.buf (headerStart p 0 + 7)
  | .pw => if p.headers.length < 2 then 255 else p.buf (headerStart p 0 + 3)
  | .tsn => 255

/-! ## What packing does -/

theorem updateLength_withBuf (buf : Nat → UInt8) (n : Nat) :
    updateLength { p with buf := buf } n = { updateLength p n with buf := buf } := by
  unfold updateLength
  by_cases h : headerStart p 0 < p.start
  · rw [if_pos h]
    exact if_pos h
  · rw [if_neg h]
    exact if_neg h

/-- All three ways to pack do the same: the text is written somewhere, and the
length is updated. -/
theorem mpPackMessagePayload_eq (pseudoAddr : Nat) (lib : JsonLibrary)
    (mp : OamMaintenancePoint) (p : Packet) (msg : JsonObject) :
    mpPackMessagePayload pseudoAddr lib mp p msg =
      if packetIsLinear p = false then none
      else (lib.jsonSerialize (.object (mp.payloadMembers msg))).map fun text =>
        { updateLength p (mpNewLength mp p text) with
          buf := Memory.storeAll p.buf (mpPayloadStores pseudoAddr mp p text) } := by
  cases hencap : mp.encap with
  | srv6 =>
    simp only [mpPackMessagePayload, packSrv6Payload, OamMaintenancePoint.payloadMembers,
      mpPayloadStores, mpNewLength, hencap, checksumCompute, srv6Filled, Memory.storeAll_append,
      updateLength_withBuf]
  | pw =>
    simp only [mpPackMessagePayload, packPwPayload, OamMaintenancePoint.payloadMembers,
      mpPayloadStores, mpNewLength, hencap, updateLength_withBuf]
  | tsn =>
    simp only [mpPackMessagePayload, packTsnPayload, OamMaintenancePoint.payloadMembers,
      mpPayloadStores, mpNewLength, hencap, updateLength_withBuf]

end Dnt
