import Dnt.Core.OamMaintenance

/-!
# Writing Messages into Packets

What `mp_pack_message_payload` does to a packet, and what `mp_unpack_message` finds
in it afterwards. One goes by the headers of the packet and the stack of the point,
the other by fixed lengths and by what the packet says about itself.

## Main definitions

* `WellPlaced`: The headers are where the encapsulation has them.
* `Readable`: What unpacking wants to see in front of the message.
* `repacked`: The packet after packing.

## Theorems

* `mpUnpackMessage_repacked`: Where both hold, unpacking reads the text that was packed.
* `mpUnpackMessage_repacked_members`: It finds the members in the headers, and otherwise
  those of the message.
-/

namespace Dnt

variable {lib : JsonLibrary}

/-! ## Lengths -/

variable {msg : JsonObject} {text : List UInt8} {n pseudoAddr : Nat} {mp : OamMaintenancePoint}
  {p : Packet} {key : String}

open List Memory

theorem u32_add (a b : Nat) : u32 (u32 a + b) = u32 (a + b) :=
  Nat.mod_add_mod a 4294967296 b

theorem u32_foldl (l : List PacketHeader) (n : Nat) :
    l.foldl (fun n h => u32 (n + h.len)) (u32 n) = u32 (n + (l.map PacketHeader.len).sum) := by
  induction l generalizing n with
  | nil => rfl
  | cons h rest ih =>
    rw [foldl_cons, u32_add, ih, map_cons, sum_cons, Nat.add_assoc]

theorem packetLength_eq (p : Packet) :
    packetLength p = u32 (p.headers.map PacketHeader.len).sum := by
  have h := u32_foldl p.headers 0
  rwa [Nat.zero_add] at h

/-- The length of the area the packet's first header is in. -/
def areaLength (p : Packet) : Nat :=
  if headerStart p 0 < p.start then p.scratchLen else p.len

theorem sum_modify_last {l : List PacketHeader} {f : PacketHeader → PacketHeader} (hne : l ≠ [])
    {d : Nat} (hd : ∀ h, u32 ((f h).len) = u32 (h.len + d)) :
    u32 ((l.modify (l.length - 1) f).map PacketHeader.len).sum =
      u32 ((l.map PacketHeader.len).sum + d) := by
  induction l with
  | nil => exact absurd rfl hne
  | cons h rest ih =>
    cases rest with
    | nil =>
      simp only [length_cons, length_nil, Nat.zero_add, Nat.sub_self,
        modify_zero_cons, map_cons, map_nil, sum_cons, sum_nil, Nat.add_zero]
      exact hd h
    | cons h' rest' =>
      have hrest := ih (cons_ne_nil h' rest')
      simp only [length_cons, Nat.add_sub_cancel] at hrest ⊢
      rw [modify_succ_cons, map_cons, sum_cons, Nat.add_comm, ← u32_add, hrest,
        u32_add, map_cons (l := h' :: rest'), sum_cons]
      congr 1
      omega

theorem headers_updateLength (p : Packet) (n : Nat) : ∃ f : PacketHeader → PacketHeader,
      (updateLength p n).headers = p.headers.modify (p.headers.length - 1) f ∧
      (∀ h, (f h).start = h.start) ∧
      ∀ h, u32 (f h).len = u32 (h.len + (n + (4294967296 - areaLength p))) := by
  unfold updateLength areaLength
  by_cases h : headerStart p 0 < p.start
  · rw [if_pos h, if_pos h]
    refine ⟨_, rfl, fun _ => rfl, fun x => ?_⟩
    simp only [u32]
    omega
  · rw [if_neg h, if_neg h]
    refine ⟨_, rfl, fun _ => rfl, fun x => ?_⟩
    simp only [u32]
    omega

theorem packetLength_updateLength (n : Nat) (hne : p.headers ≠ []) :
    packetLength (updateLength p n) = u32 (packetLength p + (n + (4294967296 - areaLength p))) := by
  obtain ⟨f, hheaders, -, hlen⟩ := headers_updateLength p n
  rw [packetLength_eq, packetLength_eq, u32_add, hheaders]
  exact sum_modify_last hne hlen

/-! ## Headers -/

@[simp]
theorem length_headers_updateLength (p : Packet) (n : Nat) :
    (updateLength p n).headers.length = p.headers.length := by
  obtain ⟨f, hheaders, -⟩ := headers_updateLength p n
  rw [hheaders, length_modify]

@[simp]
theorem headerStart_updateLength (p : Packet) (idx : Nat) :
    headerStart (updateLength p n) idx = headerStart p idx := by
  obtain ⟨f, hheaders, hstart, -⟩ := headers_updateLength p n
  unfold headerStart
  rw [hheaders, getElem?_modify]
  by_cases hidx : p.headers.length - 1 = idx
  · simp only [hidx, if_true, Option.map_eq_map, Option.map_map]
    congr 2
    funext h
    exact hstart h
  · simp [hidx]

theorem headerLen_updateLength (n : Nat) {idx : Nat} (h : idx + 1 ≠ p.headers.length) :
    headerLen (updateLength p n) idx = headerLen p idx := by
  obtain ⟨f, hheaders, -⟩ := headers_updateLength p n
  unfold headerLen
  rw [hheaders, getElem?_modify]
  by_cases hidx : p.headers.length - 1 = idx
  · -- the index is that of the last header, so there is no header at all
    rw [getElem?_eq_none (by omega)]
    rfl
  · simp [hidx]

theorem packetIsLinear_updateLength (hne : p.headers ≠ []) (h : packetIsLinear p = true) :
    packetIsLinear (updateLength p n) = true := by
  have hlen := length_headers_updateLength p n
  rw [packetIsLinear_iff hne] at h
  rw [packetIsLinear_iff (ne_nil_of_length_pos (hlen ▸ length_pos_of_ne_nil hne)), hlen]
  intro i hi hlt
  rw [headerStart_updateLength, headerStart_updateLength, headerLen_updateLength n (by omega)]
  exact h i hi hlt

/-! ## Places -/

/-- Where unpacking looks for the message. -/
def textStart (mp : OamMaintenancePoint) (p : Packet) : Nat :=
  match mp.encap with
  | .srv6 => headerStart p 1 + 48
  | .pw => headerStart p 0 + 12
  | .tsn => cfmStart p + 7

/-- How many octets unpacking does not take for message. -/
def overhead (mp : OamMaintenancePoint) (p : Packet) : Nat :=
  match mp.encap with
  | .srv6 => 88
  | .pw => 12
  | .tsn => cfmStart p - headerStart p 0 + 8

/-- The members that unpacking reads from the headers. -/
def headerMembers (mp : OamMaintenancePoint) (p : Packet) : List (String × JsonValue) :=
  match mp.encap with
  | .srv6 => srv6Members p.buf (headerStart p 1)
  | .pw => dachMembers p.buf (headerStart p 0 + 4)
  | .tsn =>
    tsnMembers p.buf (headerStart p 0)
      (if announcesRtag p = true then some (headerStart p 0 + 18) else none) (cfmStart p)

/-- How many headers unpacking wants. -/
def headersWanted (mp : OamMaintenancePoint) : Nat :=
  match mp.encap with
  | .srv6 => 3
  | _ => 2

/-- The next headers an SRv6 packet has to announce. -/
def NextHeaders (mp : OamMaintenancePoint) (p : Packet) : Prop :=
  mp.encap = .srv6 → p.buf (headerStart p 0 + 6) = 41 ∧ p.buf (headerStart p 1 + 6) = 58

/-- What unpacking wants to see in front of the message. -/
structure Readable (mp : OamMaintenancePoint) (p : Packet) : Prop where
  count : headersWanted mp ≤ p.headers.length
  linear : packetIsLinear p = true
  nextHeaders : NextHeaders mp p

theorem mpUnpackMessage_of_readable (lib : JsonLibrary) (h : Readable mp p)
    (hlength : overhead mp p ≤ packetLength p) : mpUnpackMessage lib mp p =
      parseMessage lib (load p.buf (textStart mp p) (packetLength p - overhead mp p))
        (headerMembers mp p) := by
  obtain ⟨hcount, hlinear, hnext⟩ := h
  have hlin : ¬ packetIsLinear p = false := by
    rw [hlinear]
    decide
  cases hencap : mp.encap with
  | srv6 =>
    simp only [headersWanted, overhead, hencap] at hcount hlength
    obtain ⟨h41, h58⟩ := hnext hencap
    simp only [mpUnpackMessage, unpackSrv6Message, overhead, textStart, headerMembers, hencap]
    rw [if_neg (by omega), if_neg hlin, if_neg (not_not_intro h41), if_neg (not_not_intro h58),
      if_neg (by omega)]
  | pw =>
    simp only [headersWanted, overhead, hencap] at hcount hlength
    simp only [mpUnpackMessage, unpackPwMessage, overhead, textStart, headerMembers, hencap]
    rw [if_neg (by omega), if_neg hlin, if_neg (by omega)]
  | tsn =>
    simp only [headersWanted, overhead, hencap] at hcount hlength
    have hcfm : headerStart p 0 + 18 ≤ cfmStart p := Nat.le_add_right _ _
    simp only [mpUnpackMessage, unpackTsnMessage, overhead, textStart, headerMembers, hencap]
    rw [if_neg (by omega), if_neg hlin, if_neg (by omega), if_neg (by omega), Nat.sub_sub]

theorem readable_of_mpUnpackMessage {js : JsonObject} (h : mpUnpackMessage lib mp p = some js) :
    Readable mp p ∧ overhead mp p ≤ packetLength p := by
  cases hencap : mp.encap with
  | srv6 =>
    simp only [mpUnpackMessage, unpackSrv6Message, hencap] at h
    split_ifs at h with hcount hlin h41 h58 hlen
    refine ⟨⟨?_, Bool.of_not_eq_false hlin, fun _ => ⟨not_not.mp h41, not_not.mp h58⟩⟩, ?_⟩
    · simp only [headersWanted, hencap]
      omega
    · simp only [overhead, hencap]
      omega
  | pw =>
    simp only [mpUnpackMessage, unpackPwMessage, hencap] at h
    split_ifs at h with hcount hlin hlen
    refine ⟨⟨?_, Bool.of_not_eq_false hlin, fun hsrv6 => ?_⟩, ?_⟩
    · simp only [headersWanted, hencap]
      omega
    · exact absurd (hencap.symm.trans hsrv6) (by decide)
    · simp only [overhead, hencap]
      omega
  | tsn =>
    simp only [mpUnpackMessage, unpackTsnMessage, hencap] at h
    -- the members do not matter here
    generalize tsnMembers p.buf _ _ _ = members at h
    split_ifs at h with hcount hlin hshort hlen
    refine ⟨⟨?_, Bool.of_not_eq_false hlin, fun hsrv6 => ?_⟩, ?_⟩
    · simp only [headersWanted, hencap]
      omega
    · exact absurd (hencap.symm.trans hsrv6) (by decide)
    · simp only [overhead, hencap]
      omega

/-! ## Well placed headers -/

/-- The headers are where the encapsulation has them. An R-TAG is announced if
it is part of the point's stack. -/
structure WellPlaced (mp : OamMaintenancePoint) (p : Packet) : Prop where
  srv6 : mp.encap = .srv6 → headerLen p 0 + headerLen p 1 = 80 ∧
    headerStart p 1 = headerStart p 0 + 40 ∧ headerStart p 2 = headerStart p 1 + 40
  tsn : mp.encap = .tsn → announcesRtag p = mp.hasRtag

/-- The octets in front of the message that packing may change: the length of
the inner packet and the checksum, or the length of the TLV. -/
def changedFields (mp : OamMaintenancePoint) (p : Packet) : List Nat :=
  match mp.encap with
  | .srv6 => [headerStart p 1 + 4, headerStart p 1 + 5, headerStart p 1 + 42, headerStart p 1 + 43]
  | .pw => []
  | .tsn => [cfmStart p + 5, cfmStart p + 6]

/-- The packet after a new text was packed into it. -/
def repacked (pseudoAddr : Nat) (mp : OamMaintenancePoint) (p : Packet) (text : List UInt8) :
    Packet :=
  { updateLength p (mpNewLength mp p text) with
    buf := storeAll p.buf (mpPayloadStores pseudoAddr mp p text) }

theorem stackLength_tsn (h : mp.encap = .tsn) :
    stackLength mp.protostack = 18 + if mp.hasRtag = true then 6 else 0 := by
  have hmem := mp.protostack_mem
  simp only [oamPossibleProtostacks, mem_cons, not_mem_nil, or_false] at hmem
  unfold OamMaintenancePoint.encap at h
  unfold OamMaintenancePoint.hasRtag
  rcases hmem with hs | hs | hs | hs | hs | hs
  all_goals rw [hs] at h ⊢
  · cases h
  · cases h
  all_goals rfl

theorem cfmStart_eq (hp : WellPlaced mp p) (h : mp.encap = .tsn) :
    headerStart p 0 + stackLength mp.protostack = cfmStart p := by
  unfold cfmStart
  rw [stackLength_tsn h, hp.tsn h]
  omega

theorem mpNewLength_eq (hp : WellPlaced mp p) (text : List UInt8) :
    mpNewLength mp p text = overhead mp p + text.length := by
  cases hencap : mp.encap with
  | srv6 =>
    simp only [mpNewLength, overhead, hencap]
    have := (hp.srv6 hencap).1
    omega
  | pw => simp only [mpNewLength, overhead, hencap]
  | tsn =>
    simp only [mpNewLength, overhead, hencap]
    have := cfmStart_eq hp hencap
    omega

theorem mpPayloadStores_not_covers (hp : WellPlaced mp p) {i : Nat} (hi : i < textStart mp p)
    (hfield : i ∉ changedFields mp p) {w : Store UInt8}
    (hw : w ∈ mpPayloadStores pseudoAddr mp p text) : ¬ w.Covers i := by
  cases hencap : mp.encap with
  | srv6 =>
    obtain ⟨-, -, hicmp⟩ := hp.srv6 hencap
    simp only [textStart, changedFields, hencap, mem_cons, not_mem_nil, or_false,
      not_or] at hi hfield
    simp only [mpPayloadStores, hencap, mem_append] at hw
    rcases hw with hw | hw
    · simp only [srv6TextStores, mem_cons, not_mem_nil, or_false] at hw
      rcases hw with rfl | rfl
      · rintro ⟨hle, -⟩
        simp only at hle
        omega
      · rintro ⟨hle, hlt⟩
        simp only [length_cons, length_nil] at hle hlt
        omega
    · obtain ⟨hdst, hlen⟩ := checksumStores_covers rfl hw
      rintro ⟨hle, hlt⟩
      rw [hdst, srv6Filled, headerStart_updateLength] at hle hlt
      rw [hlen] at hlt
      change headerStart p 2 + 2 ≤ i at hle
      change i < headerStart p 2 + 2 + 2 at hlt
      omega
  | pw =>
    simp only [textStart, hencap] at hi
    simp only [mpPayloadStores, pwTextStores, hencap, mem_singleton] at hw
    subst hw
    rintro ⟨hle, -⟩
    simp only at hle
    omega
  | tsn =>
    have hcfm := cfmStart_eq hp hencap
    simp only [textStart, changedFields, hencap, mem_cons, not_mem_nil, or_false,
      not_or] at hi hfield
    simp only [mpPayloadStores, tsnTextStores, hencap, mem_cons, not_mem_nil, or_false] at hw
    rcases hw with rfl | rfl
    · rintro ⟨hle, hlt⟩
      simp only [length_cons, length_nil] at hle hlt
      omega
    · rintro ⟨hle, -⟩
      simp only at hle
      omega

theorem repacked_buf_apply (pseudoAddr : Nat) (hp : WellPlaced mp p) (text : List UInt8) (i : Nat)
    (hi : i < textStart mp p) (hfield : i ∉ changedFields mp p) :
    (repacked pseudoAddr mp p text).buf i = p.buf i :=
  storeAll_apply_of_not_covers _ fun _ hw =>
    mpPayloadStores_not_covers hp hi hfield hw

theorem load_repacked (pseudoAddr : Nat) (hp : WellPlaced mp p) (text : List UInt8) :
    load (repacked pseudoAddr mp p text).buf (textStart mp p) text.length = text := by
  cases hencap : mp.encap with
  | srv6 =>
    obtain ⟨-, -, hicmp⟩ := hp.srv6 hencap
    have hstart : headerStart p 2 + 8 = headerStart p 1 + 48 := by omega
    simp only [repacked, textStart, mpPayloadStores, srv6TextStores, hencap, cons_append,
      nil_append, storeAll_cons, hstart]
    -- the length and the checksum are in front of the text
    rw [load_storeAll_of_not_covers]
    · rw [load_congr _ (store p.buf ⟨headerStart p 1 + 48, text⟩)]
      · exact load_store_self _ _ _
      · intro k _
        refine store_apply_of_not_covers _ _ _ ?_
        rintro ⟨-, hlt⟩
        simp only [length_cons, length_nil] at hlt
        omega
    · intro w hw k _
      obtain ⟨hdst, hlen⟩ := checksumStores_covers rfl hw
      rintro ⟨-, hlt⟩
      rw [hdst, hlen, srv6Filled, headerStart_updateLength] at hlt
      change headerStart p 1 + 48 + k < headerStart p 2 + 2 + 2 at hlt
      omega
  | pw =>
    simp only [repacked, textStart, mpPayloadStores, pwTextStores, hencap, storeAll_cons,
      storeAll_nil]
    exact load_store_self _ _ _
  | tsn =>
    have hcfm := cfmStart_eq hp hencap
    simp only [repacked, textStart, mpPayloadStores, tsnTextStores, hencap, hcfm,
      storeAll_cons, storeAll_nil]
    exact load_store_append _ _ _ _

/-! ## Unpacking what was packed -/

section

variable (pseudoAddr : Nat) (mp : OamMaintenancePoint) (p : Packet) (hp : WellPlaced mp p)
  (text : List UInt8)

@[simp]
theorem headerStart_repacked (idx : Nat) :
    headerStart (repacked pseudoAddr mp p text) idx = headerStart p idx :=
  headerStart_updateLength p idx

include hp

theorem announcesRtag_repacked (h : mp.encap = .tsn) :
    announcesRtag (repacked pseudoAddr mp p text) = announcesRtag p := by
  have hbuf (i : Nat) (hi : i < headerStart p 0 + 18) :
      (repacked pseudoAddr mp p text).buf i = p.buf i := by
    have hcfm : headerStart p 0 + 18 ≤ cfmStart p := Nat.le_add_right _ _
    refine repacked_buf_apply pseudoAddr hp text i ?_ ?_
    · simp only [textStart, h]
      omega
    · simp only [changedFields, h, mem_cons, not_mem_nil, or_false, not_or]
      omega
  simp only [announcesRtag, headerStart_repacked]
  rw [hbuf _ (by omega), hbuf _ (by omega)]

theorem cfmStart_repacked (h : mp.encap = .tsn) :
    cfmStart (repacked pseudoAddr mp p text) = cfmStart p := by
  unfold cfmStart
  rw [announcesRtag_repacked pseudoAddr mp p hp text h, headerStart_repacked]

theorem textStart_repacked : textStart mp (repacked pseudoAddr mp p text) = textStart mp p := by
  cases hencap : mp.encap with
  | srv6 | pw => simp only [textStart, hencap, headerStart_repacked]
  | tsn =>
    simp only [textStart, hencap]
    rw [cfmStart_repacked pseudoAddr mp p hp text hencap]

theorem overhead_repacked : overhead mp (repacked pseudoAddr mp p text) = overhead mp p := by
  cases hencap : mp.encap with
  | srv6 | pw => simp only [overhead, hencap]
  | tsn =>
    simp only [overhead, hencap]
    rw [cfmStart_repacked pseudoAddr mp p hp text hencap, headerStart_repacked]

theorem headerMembers_repacked :
    headerMembers mp (repacked pseudoAddr mp p text) = headerMembers mp p := by
  have hbuf := repacked_buf_apply pseudoAddr hp text
  cases hencap : mp.encap with
  | srv6 =>
    simp only [textStart, changedFields, hencap, mem_cons, not_mem_nil, or_false, not_or] at hbuf
    simp only [headerMembers, hencap, srv6Members, headerStart_repacked]
    rw [hbuf _ (by omega) (by omega), hbuf _ (by omega) (by omega), hbuf _ (by omega) (by omega),
      hbuf _ (by omega) (by omega)]
  | pw =>
    simp only [textStart, changedFields, hencap, not_mem_nil, not_false_eq_true,
      forall_const] at hbuf
    simp only [headerMembers, hencap, dachMembers, headerStart_repacked]
    rw [hbuf _ (by omega), hbuf _ (by omega), hbuf _ (by omega), hbuf _ (by omega),
      hbuf _ (by omega), hbuf _ (by omega), hbuf _ (by omega), hbuf _ (by omega)]
  | tsn =>
    have hcfm : headerStart p 0 + 18 ≤ cfmStart p := Nat.le_add_right _ _
    simp only [textStart, changedFields, hencap, mem_cons, not_mem_nil, or_false, not_or] at hbuf
    simp only [headerMembers, hencap]
    rw [cfmStart_repacked pseudoAddr mp p hp text hencap,
      announcesRtag_repacked pseudoAddr mp p hp text hencap, headerStart_repacked]
    simp only [tsnMembers]
    rw [hbuf _ (by omega) (by omega), hbuf _ (by omega) (by omega), hbuf _ (by omega) (by omega),
      hbuf _ (by omega) (by omega), hbuf _ (by omega) (by omega)]
    by_cases hrtag : announcesRtag p = true
    · have hcfm' : cfmStart p = headerStart p 0 + 24 := by
        unfold cfmStart
        rw [if_pos hrtag]
      simp only [if_pos hrtag]
      rw [hbuf _ (by omega) (by omega), hbuf _ (by omega) (by omega)]
    · simp only [if_neg hrtag]

end

theorem headers_ne_nil_of_readable (h : Readable mp p) : p.headers ≠ [] := by
  have hcount := h.count
  refine ne_nil_of_length_pos (Nat.lt_of_lt_of_le ?_ hcount)
  cases hencap : mp.encap <;> simp only [headersWanted, hencap] <;> decide

theorem packetLength_repacked (pseudoAddr : Nat) (mp : OamMaintenancePoint) (text : List UInt8)
    (hne : p.headers ≠ []) : packetLength (repacked pseudoAddr mp p text) =
      u32 (packetLength p + (mpNewLength mp p text + (4294967296 - areaLength p))) :=
  packetLength_updateLength (mpNewLength mp p text) hne

theorem mpUnpackMessage_repacked (lib : JsonLibrary) (hp : WellPlaced mp p) (hread : Readable mp p)
    (hlen : packetLength (repacked pseudoAddr mp p text) = overhead mp p + text.length) :
    mpUnpackMessage lib mp (repacked pseudoAddr mp p text) =
      parseMessage lib text (headerMembers mp p) := by
  have hne := headers_ne_nil_of_readable hread
  have hbuf := repacked_buf_apply pseudoAddr hp text
  have hread' : Readable mp (repacked pseudoAddr mp p text) := by
    refine ⟨?_, packetIsLinear_updateLength hne hread.linear, fun hencap => ?_⟩
    · exact (length_headers_updateLength p _).symm ▸ hread.count
    · -- the next headers are in front of the message
      obtain ⟨h41, h58⟩ := hread.nextHeaders hencap
      obtain ⟨-, hipv6, -⟩ := hp.srv6 hencap
      simp only [textStart, changedFields, hencap, mem_cons, not_mem_nil, or_false, not_or] at hbuf
      rw [headerStart_repacked, headerStart_repacked, hbuf _ (by omega) (by omega),
        hbuf _ (by omega) (by omega)]
      exact ⟨h41, h58⟩
  have hlength : overhead mp (repacked pseudoAddr mp p text) ≤
      packetLength (repacked pseudoAddr mp p text) := by
    rw [overhead_repacked pseudoAddr mp p hp text, hlen]
    exact Nat.le_add_right _ _
  rw [mpUnpackMessage_of_readable lib hread' hlength, hlen,
    overhead_repacked pseudoAddr mp p hp text, textStart_repacked pseudoAddr mp p hp text,
    headerMembers_repacked pseudoAddr mp p hp text, Nat.add_sub_cancel_left,
    load_repacked pseudoAddr hp text]

/-! ## Members -/

theorem headerMembers_keys (mp : OamMaintenancePoint) (p : Packet) :
    ((headerMembers mp p).map Prod.fst).Nodup ∧
      ∀ key ∈ (headerMembers mp p).map Prod.fst, key ∈ achKeys := by
  cases hencap : mp.encap with
  | srv6 =>
    simp only [headerMembers, hencap, srv6Members, map_cons, map_nil]
    decide
  | pw =>
    simp only [headerMembers, hencap, dachMembers, map_cons, map_nil]
    decide
  | tsn =>
    simp only [headerMembers, hencap, tsnMembers]
    by_cases hrtag : announcesRtag p = true
    · simp only [if_pos hrtag, map_append, map_cons, map_nil]
      decide
    · simp only [if_neg hrtag, map_append, map_cons, map_nil]
      decide

theorem hashmapFind_headerMembers_of_not_mem (mp : OamMaintenancePoint) (p : Packet)
    (hkey : key ∉ achKeys) : hashmapFind (headerMembers mp p) key = none := by
  refine hashmapFind_eq_none fun e he heq => hkey ?_
  exact (headerMembers_keys mp p).2 key (mem_map.mpr ⟨e, he, heq⟩)

theorem hashmapFind_payloadMembers_of_not_mem (mp : OamMaintenancePoint) (msg : JsonObject)
    (hkey : key ∉ achKeys) : hashmapFind (mp.payloadMembers msg) key = hashmapFind msg key := by
  have hstrip : hashmapFind (stripAchKeys msg) key = hashmapFind msg key := by
    rw [stripAchKeys, hashmapFind_jsonRemoveAll, if_neg hkey]
  cases hencap : mp.encap with
  | srv6 => simp only [OamMaintenancePoint.payloadMembers, hencap]
  | pw | tsn => simpa only [OamMaintenancePoint.payloadMembers, hencap] using hstrip

/-- The members that are found after packing and unpacking: those the headers
carry, and for the rest those of the message. -/
theorem mpUnpackMessage_repacked_members (hlib : lib.ParsesBack) (hp : WellPlaced mp p)
    (hread : Readable mp p)
    (htext : lib.jsonSerialize (.object (mp.payloadMembers msg)) = some text)
    (hlen : packetLength (repacked pseudoAddr mp p text) = overhead mp p + text.length) :
    ∃ js, mpUnpackMessage lib mp (repacked pseudoAddr mp p text) = some js ∧
      ∀ key, hashmapFind js key =
        (hashmapFind (headerMembers mp p) key).or (hashmapFind (mp.payloadMembers msg) key) := by
  obtain ⟨parsed, hparse, hfind⟩ := hlib _ _ htext
  refine ⟨jsonInsertAll parsed (headerMembers mp p), ?_, fun key => ?_⟩
  · rw [mpUnpackMessage_repacked lib hp hread hlen]
    simp only [parseMessage, hparse]
  · rw [hashmapFind_jsonInsertAll _ (headerMembers_keys mp p).1, hfind]

theorem mpPackMessagePayload_of_text (pseudoAddr : Nat) (hlinear : packetIsLinear p = true)
    (htext : lib.jsonSerialize (.object (mp.payloadMembers msg)) = some text) :
    mpPackMessagePayload pseudoAddr lib mp p msg = some (repacked pseudoAddr mp p text) := by
  rw [mpPackMessagePayload_eq, hlinear, if_neg (by decide), htext]
  rfl

end Dnt
