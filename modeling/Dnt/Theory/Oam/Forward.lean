import Mathlib.Algebra.Order.BigOperators.Group.List
import Mathlib.Algebra.Order.Group.Nat
import Dnt.Theory.Oam.Repack
import Dnt.Theory.Packet.Identify

/-!
# Forwarding Changed Messages

A received packet is unpacked, its message may be changed, and it is packed again
and sent on. Any of its headers may have been deleted by then.

Packing takes the difference between the new length and the number of octets
received for the growth of the packet, so the octets of deleted headers are missing
from its end. On SRv6 the message is also written behind the second header, which is
only the inner IPv6 header if the stream says so.

## Main definitions

* `InBand`: A maintenance packet with the headers of its stream, some of them deleted.
* `Survives`: A changed message is found in the packet that is sent on.
* `Untrimmed`: Every octet received is part of a header, and the second header of an SRv6
  packet is as long as an inner one.

## Theorems

* `survives_iff`: A changed message survives just if its packet is untrimmed.
-/

namespace Dnt

variable {hs : List HeaderDescriptor} {mp : OamMaintenancePoint} {p : Packet}

/-! ## Deleting headers -/

def deleteHeaders (p : Packet) (idxs : List Nat) : Packet :=
  idxs.foldl packetDelHeader p

open List

theorem packetDelHeader_eq (p : Packet) (idx : Nat) :
    packetDelHeader p idx = { p with headers := (packetDelHeader p idx).headers } ∧
      (packetDelHeader p idx).headers.Sublist p.headers := by
  unfold packetDelHeader
  split_ifs <;> grind

theorem headers_deleteHeaders (p : Packet) (idxs : List Nat) :
    deleteHeaders p idxs = { p with headers := (deleteHeaders p idxs).headers } ∧
      (deleteHeaders p idxs).headers.Sublist p.headers := by
  induction idxs generalizing p with
  | nil => exact ⟨rfl, List.Sublist.refl _⟩
  | cons idx rest ih =>
    obtain ⟨heq, hsub⟩ := packetDelHeader_eq p idx
    obtain ⟨heqs, hsubs⟩ := ih (packetDelHeader p idx)
    simp only [deleteHeaders, foldl_cons] at heqs hsubs ⊢
    refine ⟨?_, hsubs.trans hsub⟩
    rw [heqs, heq]

/-! ## Identified headers -/

theorem sum_len_layoutFrom (start : Nat) (hs : List HeaderDescriptor) :
    ((layoutFrom start hs).map PacketHeader.len).sum = totalLength hs := by
  induction hs generalizing start with
  | nil => rfl
  | cons h hs ih =>
    simp [layoutFrom, ih, totalLength]

theorem le_start_layoutFrom (start : Nat) : ∀ x ∈ layoutFrom start hs, start ≤ x.start := by
  induction hs generalizing start with
  | nil => exact fun x hx => absurd hx not_mem_nil
  | cons h hs ih =>
    rw [layoutFrom, forall_mem_cons]
    refine ⟨Nat.le_refl _, fun x hx => ?_⟩
    have := ih _ x hx
    omega

theorem len_layoutFrom (start : Nat) :
    ∀ x ∈ layoutFrom start hs, x.len = (protocolFromId x.type).bytelength := by
  induction hs generalizing start with
  | nil => exact fun x hx => absurd hx not_mem_nil
  | cons h hs ih =>
    rw [layoutFrom, forall_mem_cons]
    exact ⟨rfl, ih _⟩

theorem mem_payloadTail {x : PacketHeader} (hx : x ∈ payloadTail p hs) :
    x = ⟨.payload, p.start + totalLength hs, p.len - totalLength hs⟩ := by
  unfold payloadTail at hx
  split_ifs at hx
  · exact mem_singleton.mp hx
  · exact absurd hx not_mem_nil

theorem le_start_classified : ∀ x ∈ (classified p hs).headers, p.start ≤ x.start := by
  intro x hx
  rcases mem_append.mp hx with hx | hx
  · exact le_start_layoutFrom _ x hx
  · rw [mem_payloadTail hx]
    exact Nat.le_add_right _ _

theorem len_classified : ∀ x ∈ (classified p hs).headers, x.type ≠ .payload →
      x.len = (protocolFromId x.type).bytelength := by
  intro x hx htype
  rcases mem_append.mp hx with hx | hx
  · exact len_layoutFrom _ x hx
  · rw [mem_payloadTail hx] at htype
    exact absurd rfl htype

theorem pairwise_len_classified (p : Packet) (hs : List HeaderDescriptor) :
    (classified p hs).headers.Pairwise fun x _ => x.len ≤ 40 := by
  have hshort (x : PacketHeader) (hx : x ∈ layoutFrom p.start hs) : x.len ≤ 40 := by
    rw [len_layoutFrom _ x hx]
    exact bytelength_le _
  refine pairwise_append.mpr ⟨?_, ?_, fun x hx _ _ => hshort x hx⟩
  · exact List.Pairwise.imp_of_mem (fun hx _ _ => hshort _ hx) (pairwise_of_forall
      fun _ _ => True.intro)
  · unfold payloadTail
    split_ifs
    · exact pairwise_singleton _ _
    · exact List.Pairwise.nil

theorem sum_len_classified_le (hfit : Fits p hs) :
    ((classified p hs).headers.map PacketHeader.len).sum ≤ p.len := by
  have htotal := hfit.total
  simp only [classified, payloadTail]
  rw [map_append, sum_append, sum_len_layoutFrom]
  grind

/-! ## Packets at a maintenance point -/

/-- A packet of the maintenance layer that was identified as the headers of its stream,
and had some of them deleted. The headers that are left follow each other, and begin
with the stack of the point. -/
structure InBand (mp : OamMaintenancePoint) (p : Packet) : Prop where
  history : ∃ rcv hs idxs, rcv.start + rcv.len ≤ packetBufLen ∧ Fits rcv hs ∧
    p = deleteHeaders (classified rcv hs) idxs
  contiguous : ∀ i, i + 1 < p.headers.length →
    headerStart p (i + 1) = headerStart p i + headerLen p i
  stack : mp.protostack <+: p.headers.map PacketHeader.type
  tagged : mp.encap = .tsn → announcesRtag p = mp.hasRtag

/-- What is known of the headers that are left. -/
structure Remaining (p : Packet) : Prop where
  inBuffer : p.start + p.len ≤ packetBufLen
  start : ∀ x ∈ p.headers, p.start ≤ x.start
  len : ∀ x ∈ p.headers, x.type ≠ .payload → x.len = (protocolFromId x.type).bytelength
  short : p.headers.Pairwise fun x _ => x.len ≤ 40
  total : (p.headers.map PacketHeader.len).sum ≤ p.len

theorem InBand.remaining (h : InBand mp p) : Remaining p := by
  obtain ⟨rcv, hs, idxs, hbuf, hfit, rfl⟩ := h.history
  obtain ⟨heq, hsub⟩ := headers_deleteHeaders (classified rcv hs) idxs
  have hstart : (deleteHeaders (classified rcv hs) idxs).start = rcv.start := by rw [heq]; rfl
  have hlen : (deleteHeaders (classified rcv hs) idxs).len = rcv.len := by rw [heq]; rfl
  refine ⟨?_, ?_, ?_, ?_, ?_⟩
  · rw [hstart, hlen]
    exact hbuf
  · rw [hstart]
    exact fun x hx => le_start_classified x (hsub.subset hx)
  · exact fun x hx => len_classified x (hsub.subset hx)
  · exact (pairwise_len_classified rcv hs).sublist hsub
  · rw [hlen]
    exact Nat.le_trans ((hsub.map _).sum_le_sum fun _ _ => Nat.zero_le _)
      (sum_len_classified_le hfit)

theorem Remaining.areaLength_eq (h : Remaining p) (hne : p.headers ≠ []) :
    areaLength p = p.len := by
  have hpos := length_pos_of_ne_nil hne
  unfold areaLength
  rw [headerStart_of_lt hpos]
  exact if_neg (Nat.not_lt.mpr (h.start _ (getElem_mem hpos)))

theorem Remaining.packetLength_le (h : Remaining p) : packetLength p ≤ p.len := by
  rw [packetLength_eq]
  exact Nat.le_trans (Nat.mod_le _ _) h.total

theorem Remaining.headerLen_le (h : Remaining p) (idx : Nat) (hidx : idx + 1 < p.headers.length) :
    headerLen p idx ≤ 40 := by
  rw [headerLen_of_lt (by omega)]
  exact pairwise_iff_getElem.mp h.short idx (idx + 1) (by omega) hidx (Nat.lt_succ_self idx)

theorem InBand.headerLen_first (h : InBand mp p) (hencap : mp.encap = .srv6) :
    headerLen p 0 = 40 := by
  have hstack := h.stack
  have hhead : mp.protostack = [.ipv6] := by
    have hmem := mp.protostack_mem
    simp only [oamPossibleProtostacks, mem_cons, not_mem_nil, or_false] at hmem
    unfold OamMaintenancePoint.encap at hencap
    rcases hmem with hs | hs | hs | hs | hs | hs
    all_goals rw [hs] at hencap ⊢
    all_goals cases hencap
  rw [hhead] at hstack
  cases hheaders : p.headers with
  | nil =>
    rw [hheaders] at hstack
    exact absurd (prefix_nil.mp hstack) (cons_ne_nil _ _)
  | cons x rest =>
    rw [hheaders, map_cons, cons_prefix_cons] at hstack
    have hlen := h.remaining.len x (by rw [hheaders]; exact mem_cons_self)
      (by rw [← hstack.1]; decide)
    rw [← hstack.1] at hlen
    simp only [headerLen, hheaders]
    exact hlen

/-! ## Changed messages -/

/-- The message can be written, and the packet with it fits into the buffer. -/
def RepackFits (lib : JsonLibrary) (mp : OamMaintenancePoint) (p : Packet) (msg : JsonObject) :
    Prop :=
  ∃ text, lib.jsonSerialize (.object (mp.payloadMembers msg)) = some text ∧
    headerStart p 0 + overhead mp p + text.length ≤ packetBufLen

/-- The packet `q` carries the message `msg` as `p` carried `js`. It is as long as
it should be, the rest of it did not change, and the message can be read. -/
structure Carries (lib : JsonLibrary) (mp : OamMaintenancePoint) (p : Packet) (js : JsonObject)
    (q : Packet) (msg : JsonObject) : Prop where
  length : ∃ text, lib.jsonSerialize (.object (mp.payloadMembers msg)) = some text ∧
    packetLength q = overhead mp p + text.length
  unchanged : ∀ i < textStart mp p, i ∉ changedFields mp p → q.buf i = p.buf i
  message : ∃ js', mpUnpackMessage lib mp q = some js' ∧
    (∀ key ∉ achKeys, hashmapFind js' key = hashmapFind msg key) ∧
    ∀ key ∈ (headerMembers mp p).map Prod.fst, hashmapFind js' key = hashmapFind js key

/-- Packing succeeds, and the packet carries the message. -/
def Survives (pseudoAddr : Nat) (lib : JsonLibrary) (mp : OamMaintenancePoint) (p : Packet)
    (js msg : JsonObject) : Prop :=
  ∃ q, mpPackMessagePayload pseudoAddr lib mp p msg = some q ∧ Carries lib mp p js q msg

/-- Every octet received is part of a header that is left. The second header of
an SRv6 packet is as long as an IPv6 header. -/
def Untrimmed (mp : OamMaintenancePoint) (p : Packet) : Prop :=
  packetLength p = p.len ∧ (mp.encap = .srv6 → headerLen p 1 = 40)

/-- The new length that packing computes. Only the length of the inner headers of
an SRv6 packet is not fixed. -/
theorem InBand.mpNewLength_eq (h : InBand mp p) (text : List UInt8) :
    mpNewLength mp p text + (if mp.encap = .srv6 then 40 else 0) =
      overhead mp p + text.length + if mp.encap = .srv6 then headerLen p 1 else 0 := by
  cases hencap : mp.encap with
  | srv6 =>
    have hfirst := h.headerLen_first hencap
    simp only [mpNewLength, overhead, hencap, if_true]
    omega
  | pw => simp only [mpNewLength, overhead, hencap, reduceCtorEq, if_false]
  | tsn =>
    have hcfm : headerStart p 0 + stackLength mp.protostack = cfmStart p := by
      unfold cfmStart
      rw [stackLength_tsn hencap, h.tagged hencap]
      omega
    simp only [mpNewLength, overhead, hencap, reduceCtorEq, if_false]
    omega

theorem packetLength_repacked_iff (pseudoAddr : Nat) (h : InBand mp p) (hread : Readable mp p)
    {text : List UInt8} (hsize : headerStart p 0 + overhead mp p + text.length ≤ packetBufLen) :
    packetLength (repacked pseudoAddr mp p text) = overhead mp p + text.length ↔
      Untrimmed mp p := by
  have hrem := h.remaining
  have hne := headers_ne_nil_of_readable hread
  have hnew := h.mpNewLength_eq text
  have hle := hrem.packetLength_le
  have hbuf := hrem.inBuffer
  rw [packetLength_repacked pseudoAddr mp text hne, hrem.areaLength_eq hne]
  unfold packetBufLen at hsize hbuf
  unfold Untrimmed u32
  by_cases hencap : mp.encap = .srv6
  · have hcount := hread.count
    simp only [headersWanted, hencap] at hcount
    have hsecond := hrem.headerLen_le 1 (by omega)
    simp only [hencap, if_true, forall_const] at hnew ⊢
    -- octets cut off make the packet shorter, and so does a short second header
    omega
  · simp only [hencap, if_false, false_implies, and_true] at hnew ⊢
    omega

theorem InBand.wellPlaced (h : InBand mp p) (hread : Readable mp p) (hun : Untrimmed mp p) :
    WellPlaced mp p := by
  refine ⟨fun hencap => ?_, h.tagged⟩
  have hcount := hread.count
  simp only [headersWanted, hencap] at hcount
  have hfirst := h.headerLen_first hencap
  have hsecond := hun.2 hencap
  have h1 := h.contiguous 0 (by omega)
  have h2 := h.contiguous 1 (by omega)
  rw [hfirst] at h1
  rw [hsecond] at h2
  exact ⟨by omega, h1, h2⟩

theorem hashmapFind_of_mpUnpackMessage {lib : JsonLibrary} {js : JsonObject}
    (h : mpUnpackMessage lib mp p = some js) {key : String}
    (hkey : key ∈ (headerMembers mp p).map Prod.fst) :
    hashmapFind js key = hashmapFind (headerMembers mp p) key := by
  obtain ⟨hread, hlength⟩ := readable_of_mpUnpackMessage h
  rw [mpUnpackMessage_of_readable lib hread hlength, parseMessage] at h
  split at h
  next parsed hparse =>
    cases h
    rw [hashmapFind_jsonInsertAll _ (headerMembers_keys mp p).1]
    obtain ⟨value, hvalue⟩ := hashmapFind_isSome_of_mem hkey
    rw [hvalue]
    rfl
  next => cases h

/-- A changed message survives exactly if the packet is untrimmed. -/
theorem survives_iff (pseudoAddr : Nat) (lib : JsonLibrary) (hlib : lib.ParsesBack)
    (mp : OamMaintenancePoint) (p : Packet) (h : InBand mp p) (js : JsonObject)
    (hunpack : mpUnpackMessage lib mp p = some js) (msg : JsonObject)
    (hfits : RepackFits lib mp p msg) :
    Survives pseudoAddr lib mp p js msg ↔ Untrimmed mp p := by
  obtain ⟨text, htext, hsize⟩ := hfits
  obtain ⟨hread, -⟩ := readable_of_mpUnpackMessage hunpack
  have hpack := mpPackMessagePayload_of_text pseudoAddr hread.linear htext
  have hlength := packetLength_repacked_iff pseudoAddr h hread hsize
  constructor
  · -- the length is enough
    rintro ⟨q, hq, hcarries⟩
    obtain ⟨text', htext', hlen⟩ := hcarries.length
    rw [hpack] at hq
    cases hq
    rw [htext] at htext'
    cases htext'
    exact hlength.mp hlen
  · intro hun
    have hwell := h.wellPlaced hread hun
    obtain ⟨js', hunpack', hfind⟩ := mpUnpackMessage_repacked_members hlib
      hwell hread htext (hlength.mpr hun)
    refine ⟨_, hpack, ⟨text, htext, hlength.mpr hun⟩, ?_, js', hunpack', ?_, ?_⟩
    · exact repacked_buf_apply pseudoAddr hwell text
    · intro key hkey
      rw [hfind, hashmapFind_headerMembers_of_not_mem mp p hkey, Option.none_or,
        hashmapFind_payloadMembers_of_not_mem mp msg hkey]
    · intro key hkey
      rw [hfind, hashmapFind_of_mpUnpackMessage hunpack hkey]
      obtain ⟨value, hvalue⟩ := hashmapFind_isSome_of_mem hkey
      rw [hvalue]
      rfl

/-! ## A ping that records its route -/

def routeMembers (names : List String) : JsonObject :=
  [("code", .string "request"), ("rr", .array (names.map JsonValue.string)),
   ("target", .string "stop"), ("type", .string "ping")]

def routeText (names : String) : List UInt8 :=
  asciiOctets ("\x7b\"code\":\"request\",\"rr\":[" ++ names ++
    "],\"target\":\"stop\",\"type\":\"ping\"\x7d")

/-- A library that knows the ping before and after it has passed a point. -/
def routeLibrary : JsonLibrary where
  jsonParse text :=
    if text = routeText "" then some (.object (routeMembers []))
    else if text = routeText "\"mip\"" then some (.object (routeMembers ["mip"]))
    else none
  jsonSerialize
    | .object [("code", .string "request"), ("rr", .array []), ("target", .string "stop"),
        ("type", .string "ping")] => some (routeText "")
    | .object [("code", .string "request"), ("rr", .array [.string "mip"]),
        ("target", .string "stop"), ("type", .string "ping")] => some (routeText "\"mip\"")
    | _ => none
  jsonSerialize_ne_nil v text h := by
    split at h
    · cases h
      decide
    · cases h
      decide
    · cases h

theorem routeLibrary_parsesBack : routeLibrary.ParsesBack := by
  intro members text h
  simp only [routeLibrary] at h
  split at h
  next hmembers =>
    cases h
    cases hmembers
    refine ⟨routeMembers [], ?_, fun _ => rfl⟩
    simp only [routeLibrary, if_true]
  next hmembers =>
    cases h
    cases hmembers
    refine ⟨routeMembers ["mip"], ?_, fun _ => rfl⟩
    have hne : routeText "\"mip\"" ≠ routeText "" := by decide
    simp [routeLibrary, hne]
  next => cases h

theorem pseudowire_mem : [.mpls, .dcw] ∈ oamPossibleProtostacks := by decide

def mipPoint : OamMaintenancePoint :=
  ⟨"mip", "stream", .intermediate, 3, [.mpls, .dcw], fun _ => 0, pseudowire_mem⟩

/-- The label and the associated channel header of a ping, and its text. -/
def pwOctets : List UInt8 :=
  [0, 0, 1, 64, 0x10, 9, 0x7f, 0xff, 0, 0x4d, 0x26, 5] ++ routeText ""

def receivedOctets (octets : List UInt8) : Packet :=
  { newPacket (Memory.store (fun _ => 0) ⟨packetStartOffset, octets⟩) with len := octets.length }

def pwHeaders : List HeaderDescriptor :=
  [⟨"mpls", .mpls, []⟩, ⟨"dcw", .dcw, []⟩]

/-- The ping in a pseudowire, received without anything in front of it. -/
def barePing : Packet :=
  classified (receivedOctets pwOctets) pwHeaders

theorem barePing_inBand : InBand mipPoint barePing := by
  refine ⟨⟨receivedOctets pwOctets, pwHeaders, [], by decide, by decide, rfl⟩, ?_, ?_, ?_⟩
  · have hall : ∀ i < 2, headerStart barePing (i + 1) =
        headerStart barePing i + headerLen barePing i := by decide
    have hlen : barePing.headers.length = 3 := by decide
    exact fun i hi => hall i (by omega)
  · decide
  · decide

theorem survives_iff_barePing :
    ∃ js, mpUnpackMessage routeLibrary mipPoint barePing = some js ∧
      Survives 0 routeLibrary mipPoint barePing js (routeMembers ["mip"]) := by
  have hsome : (mpUnpackMessage routeLibrary mipPoint barePing).isSome = true := by decide +kernel
  refine ⟨_, (Option.some_get hsome).symm, ?_⟩
  refine (survives_iff 0 routeLibrary routeLibrary_parsesBack mipPoint barePing barePing_inBand _
    (Option.some_get hsome).symm _ ⟨routeText "\"mip\"", rfl, by decide⟩).mpr ?_
  exact ⟨by decide, fun h => absurd h (by decide)⟩

/-- The ping with an Ethernet header in front of it, which was deleted. -/
def trimmedPing : Packet :=
  deleteHeaders (classified (receivedOctets (List.replicate 14 0 ++ pwOctets))
    (⟨"eth", .eth, []⟩ :: pwHeaders)) [0]

theorem trimmedPing_inBand : InBand mipPoint trimmedPing := by
  refine ⟨⟨_, _, [0], by decide, by decide, rfl⟩, ?_, ?_, ?_⟩
  · have hall : ∀ i < 2, headerStart trimmedPing (i + 1) =
        headerStart trimmedPing i + headerLen trimmedPing i := by decide
    have hlen : trimmedPing.headers.length = 3 := by decide
    exact fun i hi => hall i (by omega)
  · decide
  · decide

/-- The packet that is sent on is 14 octets short, and the message cannot be read
any more. -/
theorem trimmedPing_truncated :
    InBand mipPoint trimmedPing ∧
      RepackFits routeLibrary mipPoint trimmedPing (routeMembers ["mip"]) ∧
      (mpUnpackMessage routeLibrary mipPoint trimmedPing).isSome = true ∧
      (mpPackMessagePayload 0 routeLibrary mipPoint trimmedPing (routeMembers ["mip"])).map
          packetLength = some (12 + (routeText "\"mip\"").length - 14) ∧
      ((mpPackMessagePayload 0 routeLibrary mipPoint trimmedPing (routeMembers ["mip"])).bind
        (mpUnpackMessage routeLibrary mipPoint)).isNone = true :=
  ⟨trimmedPing_inBand, ⟨routeText "\"mip\"", rfl, by decide⟩, by decide +kernel⟩

end Dnt
