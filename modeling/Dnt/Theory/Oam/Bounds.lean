import Dnt.Core.OamMessage
import Dnt.Theory.Oam.Forward

/-!
# Changed Messages and the Buffer

A message that is written again can be longer than the one that was received: a ping
that records its route gets another name, and numbers and special characters may
take more room. Packing does not look at how much room there is.

## Main definitions

* `InBuffer`: Writes that are inside the buffer.
* `textEnd`: The first octet behind the text of a message.

## Theorems

* `inbandStores_inBuffer_iff`: Receiving a message writes inside the buffer just if there
  is room for the message that is sent on.
-/

namespace Dnt

variable {mp : OamMaintenancePoint} {p : Packet} {pad : String}

/-- No octet is written behind the buffer. -/
def InBuffer (ws : List (Store UInt8)) : Prop :=
  ∀ w ∈ ws, ∀ i, w.Covers i → i < packetBufLen

def HeadersInBuffer (p : Packet) : Prop :=
  ∀ h ∈ p.headers, h.start + h.len ≤ packetBufLen

/-- Where packing writes the text. -/
def textPlace (mp : OamMaintenancePoint) (p : Packet) : Nat :=
  match mp.encap with
  | .srv6 => headerStart p 2 + 8
  | .pw => headerStart p 0 + 12
  | .tsn => headerStart p 0 + stackLength mp.protostack + 7

/-- The first octet behind the text, and behind the closing zero of a TLV. -/
def textEnd (mp : OamMaintenancePoint) (p : Packet) (text : List UInt8) : Nat :=
  textPlace mp p + text.length + if mp.encap = .tsn then 1 else 0

variable {text : List UInt8} {w : Store UInt8}

open List

theorem inBuffer_of_covers (hne : w.block ≠ []) (h : ∀ i, w.Covers i → i < packetBufLen) :
    w.dst + w.block.length ≤ packetBufLen := by
  have hpos := length_pos_of_ne_nil hne
  have hlast := h (w.dst + (w.block.length - 1)) ⟨Nat.le_add_right _ _, by omega⟩
  omega

theorem covers_lt_of_le (h : w.dst + w.block.length ≤ packetBufLen) (i : Nat) (hi : w.Covers i) :
    i < packetBufLen :=
  Nat.lt_of_lt_of_le hi.2 h

theorem inBuffer_iff {ws : List (Store UInt8)} (hne : ∀ w ∈ ws, w.block ≠ []) :
    InBuffer ws ↔ ∀ w ∈ ws, w.dst + w.block.length ≤ packetBufLen := by
  constructor
  · exact fun h w hw => inBuffer_of_covers (hne w hw) (h w hw)
  · exact fun h w hw => covers_lt_of_le (h w hw)

theorem headerStart_second_le (hread : Readable mp p) (hbuf : HeadersInBuffer p)
    (hencap : mp.encap = .srv6) : headerStart p 1 ≤ headerStart p 2 := by
  have hcount := hread.count
  simp only [headersWanted, hencap] at hcount
  have hne := @headers_ne_nil_of_readable mp p hread
  have hlinear := (@packetIsLinear_iff p hne).mp hread.linear 1 (Nat.le_refl 1) (by omega)
  have hsecond := hbuf _ (getElem_mem (show 1 < p.headers.length by omega))
  have hstart := @headerStart_of_lt p 1 (by omega)
  have hlen := @headerLen_of_lt p 1 (by omega)
  unfold packetBufLen at hsecond
  rw [hlinear, @u32_of_lt _ (by omega)]
  exact Nat.le_add_right _ _

theorem end_layoutFrom_le (start : Nat) {hs : List HeaderDescriptor} :
    ∀ x ∈ layoutFrom start hs, x.start + x.len ≤ start + totalLength hs := by
  induction hs generalizing start with
  | nil => exact fun x hx => absurd hx not_mem_nil
  | cons h hs ih =>
    have htotal : totalLength (h :: hs) = headerLength h + totalLength hs := rfl
    rw [layoutFrom, forall_mem_cons, htotal]
    refine ⟨?_, fun x hx => ?_⟩
    · simp only
      omega
    · have := ih _ x hx
      omega

theorem InBand.headersInBuffer (h : InBand mp p) : HeadersInBuffer p := by
  obtain ⟨rcv, hs, idxs, hbuf, hfit, rfl⟩ := h.history
  obtain ⟨-, hsub⟩ := headers_deleteHeaders (classified rcv hs) idxs
  intro x hx
  have htotal := hfit.total
  rcases mem_append.mp (hsub.subset hx) with hx | hx
  · have := end_layoutFrom_le _ x hx
    omega
  · rw [mem_payloadTail hx]
    simp only
    omega

theorem mpPayloadStores_inBuffer_iff (pseudoAddr : Nat) (hread : Readable mp p)
    (hbuf : HeadersInBuffer p) (hne : text ≠ []) :
    InBuffer (mpPayloadStores pseudoAddr mp p text) ↔ textEnd mp p text ≤ packetBufLen := by
  cases hencap : mp.encap with
  | srv6 =>
    have horder := headerStart_second_le hread hbuf hencap
    simp only [mpPayloadStores, textEnd, textPlace, hencap, reduceCtorEq, if_false]
    constructor
    · intro h
      have htext := inBuffer_of_covers hne (h _ (mem_append_left _ mem_cons_self))
      simp only at htext
      omega
    · -- the length and the checksum are in front of the text
      intro h w hw
      refine covers_lt_of_le ?_
      rcases mem_append.mp hw with hw | hw
      · simp only [srv6TextStores, mem_cons, not_mem_nil, or_false] at hw
        rcases hw with rfl | rfl
        · simp only
          omega
        · simp only [length_cons, length_nil]
          omega
      · obtain ⟨hdst, hlen⟩ := checksumStores_covers rfl hw
        rw [hdst, hlen, srv6Filled, headerStart_updateLength]
        change headerStart p 2 + 2 + 2 ≤ packetBufLen
        omega
  | pw =>
    simp only [mpPayloadStores, pwTextStores, textEnd, textPlace, hencap, reduceCtorEq, if_false]
    rw [inBuffer_iff fun w hw => by rw [mem_singleton.mp hw]; exact hne]
    simp
  | tsn =>
    simp only [mpPayloadStores, tsnTextStores, textEnd, textPlace, hencap, if_true]
    have hblocks : ∀ w ∈ tsnTextStores mp p text, w.block ≠ [] := by
      simp only [tsnTextStores, forall_mem_cons, not_mem_nil, false_implies, implies_true, and_true]
      exact ⟨cons_ne_nil _ _, append_ne_nil_of_right_ne_nil _ (cons_ne_nil _ _)⟩
    rw [tsnTextStores] at hblocks
    rw [inBuffer_iff hblocks]
    simp only [forall_mem_cons, not_mem_nil, false_implies, implies_true, and_true,
      length_cons, length_nil, length_append]
    omega

/-- There is room for the new text, if there is one. -/
def InbandRoom (lib : JsonLibrary) (mp : OamMaintenancePoint) (p : Packet) (sent : Bool) : Prop :=
  ∀ text, inbandText lib mp p sent = some text → textEnd mp p text ≤ packetBufLen

theorem inbandText_some {lib : JsonLibrary} {sent : Bool}
    (h : inbandText lib mp p sent = some text) : Readable mp p ∧ text ≠ [] := by
  simp only [inbandText, inbandMessage, Option.bind_eq_some_iff] at h
  obtain ⟨msg, hmsg, htext⟩ := h
  split_ifs at hmsg htext
  obtain ⟨js, hunpack, -⟩ := Option.bind_eq_some_iff.mp hmsg
  exact ⟨(readable_of_mpUnpackMessage hunpack).1, lib.jsonSerialize_ne_nil _ text htext⟩

/-- Receiving a message writes inside the buffer exactly if there is room for the
message that is written. -/
theorem inbandStores_inBuffer_iff (pseudoAddr : Nat) (lib : JsonLibrary)
    (mp : OamMaintenancePoint) (p : Packet) (hbuf : HeadersInBuffer p) (sent : Bool) :
    InBuffer (inbandStores pseudoAddr lib mp p sent) ↔ InbandRoom lib mp p sent := by
  unfold inbandStores InbandRoom
  cases htext : inbandText lib mp p sent with
  | none =>
    exact iff_of_true (fun w hw => absurd hw not_mem_nil)
      (fun text h => absurd h.symm (Option.some_ne_none text))
  | some text =>
    obtain ⟨hread, hne⟩ := inbandText_some htext
    simp only [Option.some.injEq, forall_eq']
    exact mpPayloadStores_inBuffer_iff pseudoAddr hread hbuf hne

theorem inbandStores_inBuffer_iff_barePing :
    HeadersInBuffer barePing ∧
      inbandText routeLibrary mipPoint barePing true = some (routeText "\"mip\"") ∧
      InBuffer (inbandStores 0 routeLibrary mipPoint barePing true) := by
  have hbuf : HeadersInBuffer barePing := barePing_inBand.headersInBuffer
  have htext : inbandText routeLibrary mipPoint barePing true = some (routeText "\"mip\"") := by
    decide +kernel
  refine ⟨hbuf, htext, ?_⟩
  refine (inbandStores_inBuffer_iff 0 routeLibrary mipPoint barePing hbuf true).mpr ?_
  intro text h
  rw [htext, Option.some.injEq] at h
  subst h
  decide +kernel

/-! ## A ping up to the end of the buffer -/

/-- A ping with a member that only takes room. -/
def padMembers (pad : String) (names : List String) : JsonObject :=
  [("code", .string "request"), ("pad", .string pad),
   ("rr", .array (names.map JsonValue.string)), ("target", .string "stop"),
   ("type", .string "ping")]

def padText (pad names : String) : List UInt8 :=
  asciiOctets "\x7b\"code\":\"request\",\"pad\":\"" ++ asciiOctets pad ++
    asciiOctets ("\",\"rr\":[" ++ names ++ "],\"target\":\"stop\",\"type\":\"ping\"\x7d")

/-- A library that knows such a ping before and after it has passed a point. -/
def padLibrary (pad : String) : JsonLibrary where
  jsonParse text :=
    if text = padText pad "" then some (.object (padMembers pad [])) else none
  jsonSerialize
    | .object [("code", .string "request"), ("pad", .string pad), ("rr", .array []),
        ("target", .string "stop"), ("type", .string "ping")] => some (padText pad "")
    | .object [("code", .string "request"), ("pad", .string pad),
        ("rr", .array [.string "mip"]), ("target", .string "stop"),
        ("type", .string "ping")] => some (padText pad "\"mip\"")
    | _ => none
  jsonSerialize_ne_nil v text h := by
    split at h
    · cases h
      exact append_ne_nil_of_right_ne_nil _ (by decide)
    · cases h
      exact append_ne_nil_of_right_ne_nil _ (by decide)
    · cases h

def pwFront : List UInt8 :=
  [0, 0, 1, 64, 0x10, 9, 0x7f, 0xff, 0, 0x4d, 0x26, 5]

/-- A ping that was received with its text up to the end of the buffer. -/
def longPing (pad : String) : Packet :=
  classified
    { newPacket (Memory.store (fun _ => 0) ⟨packetStartOffset, pwFront ++ padText pad ""⟩) with
      len := 8976 }
    pwHeaders

theorem length_padText (names : String) (hpad : (asciiOctets pad).length = 8899) :
    (padText pad names).length = 8899 + (asciiOctets "\x7b\"code\":\"request\",\"pad\":\"" ++
      asciiOctets ("\",\"rr\":[" ++ names ++
        "],\"target\":\"stop\",\"type\":\"ping\"\x7d")).length := by
  unfold padText
  rw [length_append, length_append, length_append, hpad]
  omega

theorem headers_longPing (pad : String) :
    (longPing pad).headers = [⟨.mpls, 1024, 4⟩, ⟨.dcw, 1028, 4⟩, ⟨.payload, 1032, 8968⟩] := rfl

theorem packetLength_longPing (pad : String) : packetLength (longPing pad) = 8976 := by
  simp [packetLength_eq, headers_longPing, u32]

theorem headerStart_longPing (pad : String) : headerStart (longPing pad) 0 = 1024 := rfl

theorem longPing_linear (pad : String) : packetIsLinear (longPing pad) = true := by
  simp [packetIsLinear, lastHeaderIdx, headerStart, headerLen, headers_longPing, u32]

theorem longPing_inBand (pad : String) : InBand mipPoint (longPing pad) := by
  refine ⟨⟨_, pwHeaders, [], ?_, ⟨by decide, ?_, ?_⟩, rfl⟩, ?_, ?_, ?_⟩
  · change packetStartOffset + 8976 ≤ packetBufLen
    decide
  · change (layoutFrom packetStartOffset pwHeaders).Pairwise fun x y => x.start < y.start
    decide
  · change totalLength pwHeaders ≤ 8976
    decide
  · intro i hi
    simp only [headers_longPing, length_cons, length_nil] at hi
    have hidx : i = 0 ∨ i = 1 := by omega
    rcases hidx with rfl | rfl
    all_goals simp [headerStart, headerLen, headers_longPing]
  · rw [headers_longPing]
    decide
  · exact fun h => absurd h (by decide)

theorem mpUnpackMessage_longPing (hpad : (asciiOctets pad).length = 8899) :
    mpUnpackMessage (padLibrary pad) mipPoint (longPing pad) =
      some (jsonInsertAll (padMembers pad []) (headerMembers mipPoint (longPing pad))) := by
  have hover : overhead mipPoint (longPing pad) = 12 := rfl
  have hread : Readable mipPoint (longPing pad) := by
    refine ⟨?_, longPing_linear pad, fun h => absurd h (by decide)⟩
    rw [headers_longPing]
    decide
  have hload : Memory.load (longPing pad).buf (textStart mipPoint (longPing pad)) (8976 - 12) =
      padText pad "" := by
    have hlen : 8976 - 12 = (padText pad "").length := by
      rw [length_padText "" hpad]
      decide
    rw [hlen]
    exact Memory.load_store_append_right _ packetStartOffset pwFront (padText pad "")
  rw [mpUnpackMessage_of_readable _ hread (by rw [hover, packetLength_longPing]; omega),
    hover, packetLength_longPing, hload]
  simp only [parseMessage, padLibrary, if_true]

theorem processInbandMessage_padMembers (pad : String) (buf : Nat → UInt8) (dach : Nat) :
    processInbandMessage mipPoint (jsonInsertAll (padMembers pad []) (dachMembers buf dach)) 64
        true = ⟨true, some (jsonInsertAll (padMembers pad ["mip"]) (dachMembers buf dach))⟩ := by
  simp [processInbandMessage, jsonObjectGetString, jsonObjectGetNumber, jsonObjectGetArray,
    jsonInsertAll, padMembers, dachMembers, hashmapInsert, hashmapFind, jsonNat, targetOutcome,
    recordRoute, mipPoint]

theorem payloadMembers_padMembers (pad : String) (buf : Nat → UInt8) (dach : Nat) :
    mipPoint.payloadMembers (jsonInsertAll (padMembers pad ["mip"]) (dachMembers buf dach)) =
      padMembers pad ["mip"] := by
  simp [OamMaintenancePoint.payloadMembers, mipPoint, OamMaintenancePoint.encap, oamEncap,
    stripAchKeys, achKeys, jsonInsertAll, jsonRemoveAll, padMembers, dachMembers, hashmapInsert,
    hashmapRemove]

theorem jsonSerialize_padMembers (pad : String) :
    (padLibrary pad).jsonSerialize (.object (padMembers pad ["mip"])) =
      some (padText pad "\"mip\"") := rfl

theorem inbandText_longPing (hpad : (asciiOctets pad).length = 8899) :
    inbandText (padLibrary pad) mipPoint (longPing pad) true = some (padText pad "\"mip\"") := by
  have hencap : mipPoint.encap = .pw := rfl
  have hcount : ¬ (longPing pad).headers.length < 2 := by
    rw [headers_longPing]
    decide
  have hlevel : mpCompareLevel mipPoint (longPing pad) = 0 := by
    have hbuf : (longPing pad).buf (1024 + 10) = 0x26 := rfl
    simp only [mpCompareLevel, hencap, comparePwLevel, longPing_linear, packetLength_longPing,
      headerStart_longPing, hbuf, if_neg hcount]
    decide
  have httl : mpGetTtl mipPoint (longPing pad) = 64 := by
    have hbuf : (longPing pad).buf (1024 + 3) = 64 := rfl
    simp only [mpGetTtl, hencap, headerStart_longPing, hbuf, if_neg hcount]
  have hmembers : headerMembers mipPoint (longPing pad) =
      dachMembers (longPing pad).buf (headerStart (longPing pad) 0 + 4) := rfl
  simp [inbandText, inbandMessage, hlevel, longPing_linear, mpUnpackMessage_longPing hpad, httl,
    hmembers, processInbandMessage_padMembers, payloadMembers_padMembers, jsonSerialize_padMembers]

/-- The ping gets a name behind the end of the buffer. -/
theorem longPing_not_inBuffer :
    ∃ pad, InBand mipPoint (longPing pad) ∧
      (mpUnpackMessage (padLibrary pad) mipPoint (longPing pad)).isSome = true ∧
      ¬ InBuffer (inbandStores 0 (padLibrary pad) mipPoint (longPing pad) true) := by
  obtain ⟨pad, hpad⟩ : ∃ pad, (asciiOctets pad).length = 8899 :=
    ⟨String.ofList (List.replicate 8899 'a'), by
      rw [asciiOctets, String.toList_ofList, length_map, length_replicate]⟩
  refine ⟨pad, longPing_inBand pad, ?_, ?_⟩
  · rw [mpUnpackMessage_longPing hpad]
    rfl
  · have htext := inbandText_longPing hpad
    obtain ⟨hread, hne⟩ := inbandText_some htext
    simp only [inbandStores, htext]
    rw [mpPayloadStores_inBuffer_iff 0 hread (longPing_inBand pad).headersInBuffer hne]
    have hplace : textPlace mipPoint (longPing pad) = 1036 := rfl
    unfold textEnd
    rw [length_padText _ hpad, hplace]
    decide

end Dnt
