import Dnt.Theory.Oam.Repack

/-!
# Requests Come Back

A request is packed into a new packet: headers that identify it, and its message as
a text. Without an R-TAG a TSN packet has no place for the session and the sequence
number, and the node of an SRv6 packet is the end of the address replies come in on.

## Main definitions

* `requestPacket`: The packet with the headers of a request.
* `carriesNumbers`: The session and the sequence number have a place in the headers.
* `ComesBack`: The members of the message, and the numbers as far as they are carried.

## Theorems

* `mpRequest_roundTrip`: A request that is packed and unpacked comes back.
-/

namespace Dnt

/-! ## Octets -/

theorem toNat_octet (n : Nat) : (octet n).toNat = n % 256 :=
  UInt8.toNat_ofNat'

theorem and_seven (n : Nat) : n &&& 7 = n % 8 :=
  Nat.and_two_pow_sub_one_eq_mod n 3

theorem and_fifteen (n : Nat) : n &&& 15 = n % 16 :=
  Nat.and_two_pow_sub_one_eq_mod n 4

theorem lowNibble (a b : Nat) :
    (octet ((a &&& 7) <<< 4 ||| (b &&& 15))).toNat &&& 15 = b % 16 := by
  have hb : b % 16 < 2 ^ 4 := Nat.mod_lt b (by decide)
  simp only [toNat_octet, and_seven, and_fifteen]
  rw [← Nat.shiftLeft_add_eq_or_of_lt hb, Nat.shiftLeft_eq]
  omega

theorem highNibble (a b : Nat) :
    (octet ((a &&& 7) <<< 4 ||| (b &&& 15))).toNat >>> 4 &&& 7 = a % 8 := by
  have hb : b % 16 < 2 ^ 4 := Nat.mod_lt b (by decide)
  simp only [toNat_octet, and_seven, and_fifteen, Nat.shiftRight_eq_div_pow]
  rw [← Nat.shiftLeft_add_eq_or_of_lt hb, Nat.shiftLeft_eq]
  omega

theorem twoOctets (a b : UInt8) : a.toNat <<< 8 ||| b.toNat = a.toNat * 256 + b.toNat := by
  have hb : b.toNat < 2 ^ 8 := b.toNat_lt
  rw [← Nat.shiftLeft_add_eq_or_of_lt hb, Nat.shiftLeft_eq]

theorem toNat_octet_nibble (n : Nat) : (octet (n &&& 15)).toNat &&& 15 = n % 16 := by
  simp only [toNat_octet, and_fifteen]
  omega

theorem dachNode (n level : Nat) :
    (octet (n >>> 12)).toNat <<< 12 + (octet (n >>> 4)).toNat <<< 4 +
      (octet ((n &&& 15) <<< 4 + (level &&& 7) <<< 1)).toNat >>> 4 = n % 2 ^ 20 := by
  simp only [toNat_octet, and_seven, and_fifteen, Nat.shiftRight_eq_div_pow, Nat.shiftLeft_eq]
  omega

theorem dachLevel (n level : Nat) :
    (octet ((n &&& 15) <<< 4 + (level &&& 7) <<< 1)).toNat >>> 1 &&& 7 = level % 8 := by
  simp only [toNat_octet, and_seven, and_fifteen, Nat.shiftRight_eq_div_pow, Nat.shiftLeft_eq]
  omega

theorem smacNode (n : Nat) :
    (octet (n >>> 24)).toNat <<< 24 + (octet (n >>> 16)).toNat <<< 16 +
      (octet (n >>> 8)).toNat <<< 8 + (octet n).toNat = n % 2 ^ 32 := by
  simp only [toNat_octet, Nat.shiftRight_eq_div_pow, Nat.shiftLeft_eq]
  omega

theorem cfmLevel (level : Nat) : (octet (level <<< 5)).toNat >>> 5 = level % 8 := by
  simp only [toNat_octet, Nat.shiftRight_eq_div_pow, Nat.shiftLeft_eq]
  omega

/-! ## Packets of requests -/

/-- The packet of a request, before the message is put in. -/
def requestPacket (env : SendContext) (mp : OamMaintenancePoint) (buf : Nat → UInt8)
    (req : OamRequest) : Packet :=
  (mpPackMessageHeader env mp (newOamPacket buf) req).1.packet

theorem packetEnlargeScratch_new (buf : Nat → UInt8) :
    packetEnlargeScratch (packetClearHeaders (newPacket buf)) = ⟨buf, 10000, 0, 0, []⟩ := rfl

section

variable (env : SendContext) (mp : OamMaintenancePoint) (buf : Nat → UInt8) (req : OamRequest)

theorem requestPacket_srv6 (h : mp.encap = .srv6) :
    requestPacket env mp buf req =
      { buf := Memory.storeAll buf (srv6HeaderStores env mp req 0 40 80)
        start := 10000
        len := 0
        scratchLen := 88
        headers := [⟨.ipv6, 0, 40⟩, ⟨.ipv6, 40, 40⟩, ⟨.icmpv6, 80, 8⟩, ⟨.payload, 88, 0⟩] } := by
  simp [requestPacket, mpPackMessageHeader, h, packSrv6MessageHeader, newOamPacket,
    packetEnlargeScratch_new, packetAddHeaders, packetAddHeader, scratchAlloc, headerStart, u32,
    packetMaxHeaderNum]

theorem requestPacket_pw (h : mp.encap = .pw) :
    requestPacket env mp buf req =
      { buf := Memory.storeAll buf (pwHeaderStores mp req 0 4)
        start := 10000
        len := 0
        scratchLen := 12
        headers := [⟨.mpls, 0, 4⟩, ⟨.oam, 4, 8⟩, ⟨.payload, 12, 0⟩] } := by
  simp [requestPacket, mpPackMessageHeader, h, packPwMessageHeader, newOamPacket,
    packetEnlargeScratch_new, packetAddHeaders, packetAddHeader, scratchAlloc, headerStart, u32,
    packetMaxHeaderNum]

theorem vlanProto_bytelength (h : mp.encap = .tsn) :
    (protocolFromId mp.vlanProto).bytelength = 4 := by
  have hmem := mp.protostack_mem
  simp only [oamPossibleProtostacks, List.mem_cons, List.not_mem_nil, or_false] at hmem
  unfold OamMaintenancePoint.encap at h
  unfold OamMaintenancePoint.vlanProto
  rcases hmem with hs | hs | hs | hs | hs | hs
  all_goals rw [hs] at h ⊢
  · cases h
  · cases h
  all_goals rfl

theorem requestPacket_rtag (h : mp.encap = .tsn) (hrtag : mp.hasRtag = true) :
    requestPacket env mp buf req =
      { buf := Memory.storeAll buf (tsnAddressStores mp req 0 14 ++
          [⟨16, [0xf1, 0xc1]⟩, ⟨18, rtagOctets req⟩] ++ cfmStores req 24)
        start := 10000
        len := 0
        scratchLen := 32
        headers := [⟨.eth, 0, 14⟩, ⟨mp.vlanProto, 14, 4⟩, ⟨.rtag, 18, 6⟩, ⟨.payload, 24, 8⟩] } := by
  simp [requestPacket, mpPackMessageHeader, h, hrtag, packTsnMessageHeader, newOamPacket,
    packetEnlargeScratch_new, packetAddHeaders, packetAddHeader, scratchAlloc, headerStart, u32,
    packetMaxHeaderNum, vlanProto_bytelength mp h]

theorem requestPacket_noRtag (h : mp.encap = .tsn) (hrtag : mp.hasRtag = false) :
    requestPacket env mp buf req =
      { buf := Memory.storeAll buf (tsnAddressStores mp req 0 14 ++ [⟨16, [0x89, 0x02]⟩] ++
          cfmStores req 18)
        start := 10000
        len := 0
        scratchLen := 22
        headers := [⟨.eth, 0, 14⟩, ⟨mp.vlanProto, 14, 4⟩, ⟨.payload, 18, 4⟩] } := by
  simp [requestPacket, mpPackMessageHeader, h, hrtag, packTsnMessageHeader, newOamPacket,
    packetEnlargeScratch_new, packetAddHeaders, packetAddHeader, scratchAlloc, headerStart, u32,
    packetMaxHeaderNum, vlanProto_bytelength mp h]

theorem wellPlaced_requestPacket : WellPlaced mp (requestPacket env mp buf req) := by
  refine ⟨fun h => ?_, fun h => ?_⟩
  · rw [requestPacket_srv6 env mp buf req h]
    exact ⟨rfl, rfl, rfl⟩
  · cases hrtag : mp.hasRtag with
    | false =>
      rw [requestPacket_noRtag env mp buf req h hrtag]
      rfl
    | true =>
      rw [requestPacket_rtag env mp buf req h hrtag]
      rfl

/-- The packet fills its area, and its headers follow each other. -/
structure NewlyPacked (mp : OamMaintenancePoint) (p : Packet) : Prop where
  area : areaLength p = packetLength p
  readable : Readable mp p

theorem newlyPacked_requestPacket : NewlyPacked mp (requestPacket env mp buf req) := by
  cases hencap : mp.encap with
  | srv6 =>
    rw [requestPacket_srv6 env mp buf req hencap]
    refine ⟨rfl, ?_, ?_, fun _ => ⟨rfl, rfl⟩⟩
    · simp only [headersWanted, hencap]
      exact Nat.le_add_right 3 1
    · simp [packetIsLinear, lastHeaderIdx, headerStart, headerLen, u32, List.range']
  | pw =>
    rw [requestPacket_pw env mp buf req hencap]
    refine ⟨rfl, ?_, ?_, fun h => absurd (hencap.symm.trans h) (by decide)⟩
    · simp only [headersWanted, hencap]
      exact Nat.le_add_right 2 1
    · simp [packetIsLinear, lastHeaderIdx, headerStart, headerLen, u32]
  | tsn =>
    cases hrtag : mp.hasRtag with
    | false =>
      rw [requestPacket_noRtag env mp buf req hencap hrtag]
      refine ⟨rfl, ?_, ?_, fun h => absurd (hencap.symm.trans h) (by decide)⟩
      · simp only [headersWanted, hencap]
        exact Nat.le_add_right 2 1
      · simp [packetIsLinear, lastHeaderIdx, headerStart, headerLen, u32]
    | true =>
      rw [requestPacket_rtag env mp buf req hencap hrtag]
      refine ⟨rfl, ?_, ?_, fun h => absurd (hencap.symm.trans h) (by decide)⟩
      · simp only [headersWanted, hencap]
        exact Nat.le_add_right 2 2
      · simp [packetIsLinear, lastHeaderIdx, headerStart, headerLen, u32, List.range']

/-! ## What the headers carry -/

/-- The session and the sequence number have a place in the headers. -/
def carriesNumbers : Bool :=
  decide (mp.encap ≠ .tsn) || mp.hasRtag

/-- The node that the headers name. -/
def carriedNode : Nat :=
  match mp.encap with
  | .srv6 => (env.saddr 15).toNat * 256 + (env.saddr 14).toNat
  | .pw => req.nodeId.toNat % 2 ^ 20
  | .tsn => req.nodeId.toNat % 2 ^ 32

structure HeadersOf (members : JsonObject) : Prop where
  level : hashmapFind members "level" = some (jsonNat (req.level.toNat % 8))
  node : hashmapFind members "nodeid" = some (jsonNat (carriedNode env mp req))
  numbers : carriesNumbers mp = true →
    hashmapFind members "session" = some (jsonNat (req.session.toNat % 16)) ∧
      hashmapFind members "seq" = some (jsonNat req.seq.toNat)
  noNumbers : carriesNumbers mp = false →
    hashmapFind members "session" = none ∧ hashmapFind members "seq" = none

theorem headersOf_srv6 (h : mp.encap = .srv6) :
    HeadersOf env mp req (headerMembers mp (requestPacket env mp buf req)) := by
  have hmembers : headerMembers mp (requestPacket env mp buf req) =
      srv6Members (Memory.storeAll buf (srv6HeaderStores env mp req 0 40 80)) 40 := by
    rw [requestPacket_srv6 env mp buf req h]
    simp only [headerMembers, h]
    rfl
  have hcarries : carriesNumbers mp = true := by
    simp only [carriesNumbers, h]
    rfl
  rw [hmembers]
  refine ⟨?_, ?_, fun _ => ⟨?_, rfl⟩, fun hno => absurd (hcarries.symm.trans hno) (by decide)⟩
  · exact congrArg (fun n => some (jsonNat n)) (highNibble req.level.toNat req.session.toNat)
  · simp only [carriedNode, h]
    exact congrArg (fun n => some (jsonNat n)) (twoOctets (env.saddr 15) (env.saddr 14))
  · exact congrArg (fun n => some (jsonNat n)) (lowNibble req.level.toNat req.session.toNat)

theorem headersOf_pw (h : mp.encap = .pw) :
    HeadersOf env mp req (headerMembers mp (requestPacket env mp buf req)) := by
  have hmembers : headerMembers mp (requestPacket env mp buf req) =
      dachMembers (Memory.storeAll buf (pwHeaderStores mp req 0 4)) 4 := by
    rw [requestPacket_pw env mp buf req h]
    simp only [headerMembers, h]
    rfl
  have hcarries : carriesNumbers mp = true := by
    simp only [carriesNumbers, h]
    rfl
  rw [hmembers]
  refine ⟨?_, ?_, fun _ => ⟨?_, rfl⟩, fun hno => absurd (hcarries.symm.trans hno) (by decide)⟩
  · exact congrArg (fun n => some (jsonNat n)) (dachLevel req.nodeId.toNat req.level.toNat)
  · simp only [carriedNode, h]
    exact congrArg (fun n => some (jsonNat n)) (dachNode req.nodeId.toNat req.level.toNat)
  · exact congrArg (fun n => some (jsonNat n)) (toNat_octet_nibble req.session.toNat)

theorem headersOf_rtag (h : mp.encap = .tsn) (hrtag : mp.hasRtag = true) :
    HeadersOf env mp req (headerMembers mp (requestPacket env mp buf req)) := by
  have hmembers : headerMembers mp (requestPacket env mp buf req) =
      tsnMembers (requestPacket env mp buf req).buf 0 (some 18) 24 := by
    have hannounced := (wellPlaced_requestPacket env mp buf req).tsn h
    rw [hrtag] at hannounced
    simp only [headerMembers, h, cfmStart, if_pos hannounced]
    rw [requestPacket_rtag env mp buf req h hrtag]
    rfl
  have hcarries : carriesNumbers mp = true := by
    simp [carriesNumbers, hrtag]
  rw [hmembers, requestPacket_rtag env mp buf req h hrtag]
  refine ⟨?_, ?_, fun _ => ⟨?_, rfl⟩, fun hno => absurd (hcarries.symm.trans hno) (by decide)⟩
  · exact congrArg (fun n => some (jsonNat n)) (cfmLevel req.level.toNat)
  · simp only [carriedNode, h]
    exact congrArg (fun n => some (jsonNat n)) (smacNode req.nodeId.toNat)
  · exact congrArg (fun n => some (jsonNat n)) (toNat_octet_nibble req.session.toNat)

theorem headersOf_noRtag (h : mp.encap = .tsn) (hrtag : mp.hasRtag = false) :
    HeadersOf env mp req (headerMembers mp (requestPacket env mp buf req)) := by
  have hmembers : headerMembers mp (requestPacket env mp buf req) =
      tsnMembers (requestPacket env mp buf req).buf 0 none 18 := by
    have hannounced := (wellPlaced_requestPacket env mp buf req).tsn h
    rw [hrtag] at hannounced
    simp only [headerMembers, h, cfmStart, hannounced]
    rw [requestPacket_noRtag env mp buf req h hrtag]
    rfl
  have hcarries : carriesNumbers mp = false := by
    simp only [carriesNumbers, h, hrtag]
    rfl
  rw [hmembers, requestPacket_noRtag env mp buf req h hrtag]
  refine ⟨?_, ?_, fun hyes => absurd (hcarries.symm.trans hyes) (by decide), fun _ => ⟨rfl, rfl⟩⟩
  · exact congrArg (fun n => some (jsonNat n)) (cfmLevel req.level.toNat)
  · simp only [carriedNode, h]
    exact congrArg (fun n => some (jsonNat n)) (smacNode req.nodeId.toNat)

theorem headersOf_requestPacket :
    HeadersOf env mp req (headerMembers mp (requestPacket env mp buf req)) := by
  cases hencap : mp.encap with
  | srv6 => exact headersOf_srv6 env mp buf req hencap
  | pw => exact headersOf_pw env mp buf req hencap
  | tsn =>
    cases hrtag : mp.hasRtag with
    | false => exact headersOf_noRtag env mp buf req hencap hrtag
    | true => exact headersOf_rtag env mp buf req hencap hrtag

/-- What a request looks like after it was unpacked. The members of the message
are there, reserved ones apart, and the numbers that the headers carry. -/
structure ComesBack (msg js : JsonObject) : Prop where
  members : ∀ key ∉ achKeys, hashmapFind js key = hashmapFind msg key
  level : hashmapFind js "level" = some (jsonNat (req.level.toNat % 8))
  node : hashmapFind js "nodeid" = some (jsonNat (carriedNode env mp req))
  numbers : carriesNumbers mp = true →
    hashmapFind js "session" = some (jsonNat req.session.toNat) ∧
      hashmapFind js "seq" = some (jsonNat req.seq.toNat)
  noNumbers : carriesNumbers mp = false →
    hashmapFind js "session" = none ∧ hashmapFind js "seq" = none

end

/-- How many octets of the packet of a request are not message. -/
def requestOverhead (mp : OamMaintenancePoint) : Nat :=
  match mp.encap with
  | .srv6 => 88
  | .pw => 12
  | .tsn => stackLength mp.protostack + 8

/-- The message can be written, and the packet with it fits into the buffer. -/
def MessageFits (lib : JsonLibrary) (mp : OamMaintenancePoint) (msg : JsonObject) : Prop :=
  ∃ text, lib.jsonSerialize (.object (mp.payloadMembers msg)) = some text ∧
    requestOverhead mp + text.length ≤ packetBufLen

theorem overhead_requestPacket (env : SendContext) (mp : OamMaintenancePoint) (buf : Nat → UInt8)
    (req : OamRequest) : overhead mp (requestPacket env mp buf req) = requestOverhead mp := by
  cases hencap : mp.encap with
  | srv6 | pw => simp only [overhead, requestOverhead, hencap]
  | tsn =>
    have hcfm := cfmStart_eq (wellPlaced_requestPacket env mp buf req) hencap
    simp only [overhead, requestOverhead, hencap]
    omega

theorem hashmapFind_payloadMembers_of_noNumbers {mp : OamMaintenancePoint} (msg : JsonObject)
    (h : carriesNumbers mp = false) {key : String} (hkey : key ∈ achKeys) :
    hashmapFind (mp.payloadMembers msg) key = none := by
  cases hencap : mp.encap with
  | tsn =>
    simp only [OamMaintenancePoint.payloadMembers, hencap, stripAchKeys]
    rw [hashmapFind_jsonRemoveAll, if_pos hkey]
  | srv6 | pw =>
    simp only [carriesNumbers, hencap] at h
    cases h

theorem requestPacket_unpacks (pseudoAddr : Nat) (lib : JsonLibrary) (hlib : lib.ParsesBack)
    (env : SendContext) (mp : OamMaintenancePoint) (buf : Nat → UInt8) (req : OamRequest)
    (msg : JsonObject) (hfits : MessageFits lib mp msg) :
    ∃ p js,
      mpPackMessagePayload pseudoAddr lib mp (requestPacket env mp buf req) msg = some p ∧
      mpUnpackMessage lib mp p = some js ∧
      ∀ key, hashmapFind js key =
        (hashmapFind (headerMembers mp (requestPacket env mp buf req)) key).or
          (hashmapFind (mp.payloadMembers msg) key) := by
  obtain ⟨text, htext, hsize⟩ := hfits
  have hpacked := newlyPacked_requestPacket env mp buf req
  have hread := hpacked.readable
  have hwell := wellPlaced_requestPacket env mp buf req
  have hne := headers_ne_nil_of_readable hread
  have hlen : packetLength (repacked pseudoAddr mp (requestPacket env mp buf req) text) =
      overhead mp (requestPacket env mp buf req) + text.length := by
    have hold : packetLength (requestPacket env mp buf req) < 4294967296 :=
      packetLength_eq (requestPacket env mp buf req) ▸ Nat.mod_lt _ (by decide)
    rw [packetLength_repacked pseudoAddr mp text hne, mpNewLength_eq hwell,
      hpacked.area, overhead_requestPacket]
    unfold packetBufLen at hsize
    unfold u32
    omega
  obtain ⟨js, hunpack, hfind⟩ := mpUnpackMessage_repacked_members hlib hwell hread htext hlen
  exact ⟨_, js, mpPackMessagePayload_of_text pseudoAddr hread.linear htext,
    hunpack, hfind⟩

/-- Packing a request into a new packet and unpacking it again gives the message
and the numbers of the request back. -/
theorem mpRequest_roundTrip (pseudoAddr : Nat) (lib : JsonLibrary) (hlib : lib.ParsesBack)
    (env : SendContext) (mp : OamMaintenancePoint) (buf : Nat → UInt8) (req : OamRequest)
    (hsession : req.session.toNat < 16) (msg : JsonObject) (hfits : MessageFits lib mp msg) :
    ∃ p js,
      mpPackMessagePayload pseudoAddr lib mp
        (mpPackMessageHeader env mp (newOamPacket buf) req).1.packet msg = some p ∧
      mpUnpackMessage lib mp p = some js ∧ ComesBack env mp req msg js := by
  have hheaders := headersOf_requestPacket env mp buf req
  obtain ⟨p, js, hpack, hunpack, hfind⟩ :=
    requestPacket_unpacks pseudoAddr lib hlib env mp buf req msg hfits
  refine ⟨p, js, hpack, hunpack, fun key hkey => ?_, ?_, ?_, fun hnum => ?_, fun hnum => ?_⟩
  · rw [hfind, hashmapFind_headerMembers_of_not_mem mp _ hkey, Option.none_or,
      hashmapFind_payloadMembers_of_not_mem mp msg hkey]
  · rw [hfind, hheaders.level]
    rfl
  · rw [hfind, hheaders.node]
    rfl
  · have hnumbers := hheaders.numbers hnum
    rw [hfind, hfind, hnumbers.1, hnumbers.2, Nat.mod_eq_of_lt hsession]
    exact ⟨rfl, rfl⟩
  · have hnone := hheaders.noNumbers hnum
    rw [hfind, hfind, hnone.1, hnone.2,
      hashmapFind_payloadMembers_of_noNumbers msg hnum (by decide),
      hashmapFind_payloadMembers_of_noNumbers msg hnum (by decide)]
    exact ⟨rfl, rfl⟩

/-! ## A ping on three stacks -/

def pingMembers : JsonObject :=
  [("code", .string "request"), ("type", .string "ping")]

def pingText : List UInt8 :=
  asciiOctets "\x7b\"code\":\"request\",\"type\":\"ping\"\x7d"

def pingLibrary : JsonLibrary where
  jsonParse text := if text = pingText then some (.object pingMembers) else none
  jsonSerialize
    | .object [("code", .string "request"), ("type", .string "ping")] => some pingText
    | _ => none
  jsonSerialize_ne_nil v text h := by
    split at h
    · cases h
      decide
    · cases h

theorem pingLibrary_parsesBack : pingLibrary.ParsesBack := by
  intro members text h
  simp only [pingLibrary] at h
  split at h
  next hmembers =>
    cases h
    cases hmembers
    refine ⟨pingMembers, ?_, fun _ => rfl⟩
    simp only [pingLibrary, if_true]
  next => cases h

def pingRequest : OamRequest where
  type := "ping"
  ttl := 64
  sessionId := 5
  seq := 9
  level := 3
  nodeId := 1234
  originatorStream := none
  originatorSessionId := 0

/-- No address is known for replies. -/
def pingContext : SendContext :=
  ⟨some none, fun _ => 0, ⟨0, 0⟩⟩

def pingPoint (protostack : List ProtocolID) (h : protostack ∈ oamPossibleProtostacks) :
    OamMaintenancePoint :=
  ⟨"start", "stream", .start, 3, protostack, fun _ => 0, h⟩

theorem mpRequest_roundTrip_rtag :
    ∃ p js,
      mpPackMessagePayload 0 pingLibrary (pingPoint [.eth, .cvlan, .rtag] (by decide))
        (mpPackMessageHeader pingContext (pingPoint [.eth, .cvlan, .rtag] (by decide))
          (newOamPacket fun _ => 0) pingRequest).1.packet pingMembers = some p ∧
      mpUnpackMessage pingLibrary (pingPoint [.eth, .cvlan, .rtag] (by decide)) p = some js ∧
      ComesBack pingContext (pingPoint [.eth, .cvlan, .rtag] (by decide)) pingRequest pingMembers
        js :=
  mpRequest_roundTrip 0 pingLibrary pingLibrary_parsesBack pingContext
    (pingPoint [.eth, .cvlan, .rtag] (by decide)) (fun _ => 0) pingRequest (by decide) pingMembers
    ⟨pingText, rfl, by decide⟩

/-- Without an R-TAG the session of the request does not come back, and its node
does not on SRv6. -/
theorem request_numbers_lost :
    (∃ p js,
      mpPackMessagePayload 0 pingLibrary (pingPoint [.eth, .cvlan] (by decide))
        (mpPackMessageHeader pingContext (pingPoint [.eth, .cvlan] (by decide))
          (newOamPacket fun _ => 0) pingRequest).1.packet pingMembers = some p ∧
      mpUnpackMessage pingLibrary (pingPoint [.eth, .cvlan] (by decide)) p = some js ∧
      pingRequest.session = 5 ∧ hashmapFind js "session" = none) ∧
    ∃ p js,
      mpPackMessagePayload 0 pingLibrary (pingPoint [.ipv6] (by decide))
        (mpPackMessageHeader pingContext (pingPoint [.ipv6] (by decide))
          (newOamPacket fun _ => 0) pingRequest).1.packet pingMembers = some p ∧
      mpUnpackMessage pingLibrary (pingPoint [.ipv6] (by decide)) p = some js ∧
      pingRequest.nodeId = 1234 ∧ hashmapFind js "nodeid" = some (jsonNat 0) := by
  constructor
  · obtain ⟨p, js, hpack, hunpack, hfind⟩ := requestPacket_unpacks 0 pingLibrary
      pingLibrary_parsesBack pingContext (pingPoint [.eth, .cvlan] (by decide)) (fun _ => 0)
      pingRequest pingMembers ⟨pingText, rfl, by decide⟩
    have hheaders := headersOf_requestPacket pingContext (pingPoint [.eth, .cvlan] (by decide))
      (fun _ => 0) pingRequest
    refine ⟨p, js, hpack, hunpack, rfl, ?_⟩
    rw [hfind, (hheaders.noNumbers rfl).1]
    rfl
  · obtain ⟨p, js, hpack, hunpack, hfind⟩ := requestPacket_unpacks 0 pingLibrary
      pingLibrary_parsesBack pingContext (pingPoint [.ipv6] (by decide)) (fun _ => 0)
      pingRequest pingMembers ⟨pingText, rfl, by decide⟩
    have hheaders := headersOf_requestPacket pingContext (pingPoint [.ipv6] (by decide))
      (fun _ => 0) pingRequest
    refine ⟨p, js, hpack, hunpack, rfl, ?_⟩
    rw [hfind, hheaders.node]
    rfl

end Dnt
