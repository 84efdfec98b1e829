import Dnt.Core.Notification
import Dnt.Library.Pieces

/-!
# Notifications in Fragments

The number of fragments is worked out from the weight of the message, in which
quotes count twice. A fragment is full when its weight is 1200, so it may turn out
one too heavy, and this many fragments are always enough.

The weight is an `unsigned`. If it does not fit, the end of the message is missing,
and a message that seems to fit into one packet is too long for the buffer of a packet.
A fragment fits this buffer, unless the name of the host takes the room.

## Main definitions

* `messageWeight`: The characters of a message, where quotes count twice.
* `fragmentTexts`: The texts of the fragments that the loop makes.
* `Reassembles`: The packets have their labels, and their texts give the message.

## Theorems

* `fragmentTexts_eq_pieces`: The texts are the pieces of the message by weight.
* `sendFragments_members`: The labels and the texts of the packets.
* `length_serialized_le`: How long the text of a packet is at most.
* `sendNotificationMessage_reassembles_iff`: With a name of the host that leaves room, the
  message can be put together exactly if its weight fits into an `unsigned`.
-/

namespace Dnt

open Pieces

variable {msg : List UInt8}

variable (s : Notifier) (c : UInt8)

/-- A quote is sent with a backslash. -/
def octetWeight : Nat :=
  if c = quoteOctet then 2 else 1

open List

theorem octetWeight_pos : 0 < octetWeight c := by
  unfold octetWeight
  split_ifs <;> omega

theorem octetWeight_le : octetWeight c ≤ 1 + 1 := by
  unfold octetWeight
  split_ifs <;> omega

def messageWeight (msg : List UInt8) : Nat :=
  weight octetWeight msg

theorem length_le_messageWeight (msg : List UInt8) : msg.length ≤ messageWeight msg := by
  induction msg with
  | nil => exact Nat.le_refl 0
  | cons c msg ih =>
    have := octetWeight_pos c
    rw [messageWeight, weight_cons, length_cons]
    rw [messageWeight] at ih
    omega

theorem messageWeight_le (msg : List UInt8) : messageWeight msg ≤ 2 * msg.length := by
  induction msg with
  | nil => exact Nat.le_refl 0
  | cons c msg ih =>
    have := octetWeight_le c
    rw [messageWeight, weight_cons, length_cons]
    rw [messageWeight] at ih
    omega

theorem octetAt_of_lt {i : Nat} (h : i < msg.length) : octetAt msg i = msg[i] := by
  rw [octetAt, getD_eq_getElem?_getD, getElem?_eq_getElem h, Option.getD_some]

theorem octetAt_length (msg : List UInt8) : octetAt msg msg.length = 0 := by
  rw [octetAt, getD_eq_getElem?_getD, getElem?_eq_none (Nat.le_refl _), Option.getD_none]

theorem length_add_countQuotes {len : Nat} (hlen : len ≤ msg.length) :
    len + countQuotes msg len = messageWeight (msg.take len) := by
  induction len with
  | zero => rfl
  | succ len ih =>
    have hlt : len < msg.length := hlen
    have hcount : countQuotes msg (len + 1) =
        countQuotes msg len + if octetAt msg len = quoteOctet then 1 else 0 := by
      simp only [countQuotes, range_succ, countP_append, countP_singleton, decide_eq_true_eq]
    rw [hcount, take_add_one, getElem?_eq_getElem hlt, messageWeight,
      weight_append, Option.toList_some, weight_cons, weight_nil,
      octetWeight, octetAt_of_lt hlt]
    have := ih (Nat.le_of_lt hlt)
    rw [messageWeight] at this
    split_ifs <;> omega

/-! ### Cutting -/

theorem fragmentLength_eq (msg : List UInt8) (hzero : (0 : UInt8) ∉ msg)
    (hlength : msg.length < 2 ^ 32) (fragBegin fuel l q : Nat)
    (hfuel : maxNotificationLen ≤ fuel + (l + q)) (hin : fragBegin + l ≤ msg.length) :
    fragmentLength msg fragBegin fuel l q =
      l + (cut octetWeight (maxNotificationLen - (l + q))
        (msg.drop (fragBegin + l))).length := by
  induction fuel generalizing l q with
  | zero =>
    have hroom : maxNotificationLen - (l + q) = 0 := by omega
    rw [hroom, fragmentLength, cut_zero]
    rfl
  | succ fuel ih =>
    rw [fragmentLength]
    by_cases hroom : l + q < maxNotificationLen
    · have hindex : (fragBegin + l) % 2 ^ 32 = fragBegin + l := by omega
      obtain ⟨room, hroom'⟩ : ∃ room, maxNotificationLen - (l + q) = room + 1 :=
        ⟨maxNotificationLen - (l + q) - 1, by omega⟩
      rw [if_pos hroom, hindex, hroom']
      by_cases hend : fragBegin + l = msg.length
      · -- the zero behind the message
        rw [hend, octetAt_length, if_pos rfl, drop_length, cut_nil]
        rfl
      · have hlt : fragBegin + l < msg.length := by omega
        have hne : msg[fragBegin + l] ≠ 0 := fun h => hzero (h ▸ getElem_mem hlt)
        have hdrop : msg.drop (fragBegin + l) =
            msg[fragBegin + l] :: msg.drop (fragBegin + (l + 1)) := by
          rw [drop_eq_getElem_cons hlt, Nat.add_assoc]
        rw [octetAt_of_lt hlt, if_neg hne, hdrop, cut, length_cons, ih _ _ ?_ (by omega)]
        · have hrest : maxNotificationLen -
              (l + 1 + if msg[fragBegin + l] = quoteOctet then q + 1 else q) =
              room + 1 - octetWeight msg[fragBegin + l] := by
            unfold octetWeight
            split_ifs <;> omega
          rw [hrest]
          omega
        · split_ifs <;> omega
    · have hroom' : maxNotificationLen - (l + q) = 0 := by omega
      rw [if_neg hroom, hroom', cut_zero]
      rfl

theorem fragmentLength_le (msg : List UInt8) (fragBegin fuel l q : Nat)
    (hl : l ≤ maxNotificationLen) : fragmentLength msg fragBegin fuel l q ≤ maxNotificationLen := by
  induction fuel generalizing l q with
  | zero => exact hl
  | succ fuel ih =>
    rw [fragmentLength]
    grind

def fragmentTexts (msg : List UInt8) : Nat → Nat → List (List UInt8)
  | 0, _ => []
  | rounds + 1, fragBegin =>
    let l := fragmentLength msg fragBegin maxNotificationLen 0 0
    (msg.drop fragBegin).take l :: fragmentTexts msg rounds ((fragBegin + l) % 2 ^ 32)

theorem fragmentTexts_eq_pieces (hzero : (0 : UInt8) ∉ msg) (hlength : msg.length < 2 ^ 32)
    {rounds : Nat} (fragBegin : Nat) (hin : fragBegin ≤ msg.length) :
    fragmentTexts msg rounds fragBegin =
      pieces octetWeight maxNotificationLen rounds (msg.drop fragBegin) := by
  induction rounds generalizing fragBegin with
  | zero => rfl
  | succ rounds ih =>
    have hl := fragmentLength_eq msg hzero hlength fragBegin maxNotificationLen 0 0
      (Nat.le_refl _) hin
    simp only [Nat.zero_add, Nat.add_zero, Nat.sub_zero] at hl
    have hprefix := cut_begins octetWeight maxNotificationLen (msg.drop fragBegin)
    have hle := hprefix.length_le
    rw [length_drop] at hle
    have hbegin : (fragBegin + (cut octetWeight maxNotificationLen
        (msg.drop fragBegin)).length) % 2 ^ 32 =
        fragBegin + (cut octetWeight maxNotificationLen (msg.drop fragBegin)).length := by
      omega
    simp only [fragmentTexts, pieces, hl, hbegin]
    rw [ih _ (by omega), drop_drop, ← prefix_iff_eq_take.mp hprefix]

theorem length_of_mem_fragmentTexts (msg : List UInt8) (rounds fragBegin : Nat) {t : List UInt8}
    (ht : t ∈ fragmentTexts msg rounds fragBegin) : t.length ≤ maxNotificationLen := by
  induction rounds generalizing fragBegin with
  | zero => exact absurd ht not_mem_nil
  | succ rounds ih =>
    obtain rfl | hmem := mem_cons.mp ht
    · rw [length_take]
      exact Nat.le_trans (Nat.min_le_left _ _)
        (fragmentLength_le msg fragBegin maxNotificationLen 0 0 (Nat.zero_le _))
    · exact ih _ hmem

@[simp] theorem length_fragmentTexts (msg : List UInt8) (rounds fragBegin : Nat) :
    (fragmentTexts msg rounds fragBegin).length = rounds := by
  induction rounds generalizing fragBegin with
  | zero => rfl
  | succ rounds ih => rw [fragmentTexts, length_cons, ih]

theorem length_flatten_fragmentTexts (msg : List UInt8) (rounds fragBegin : Nat) :
    (fragmentTexts msg rounds fragBegin).flatten.length ≤ rounds * maxNotificationLen := by
  induction rounds generalizing fragBegin with
  | zero => exact Nat.zero_le _
  | succ rounds ih =>
    have hhead := length_of_mem_fragmentTexts msg (rounds + 1) fragBegin mem_cons_self
    have hrest := ih ((fragBegin + fragmentLength msg fragBegin maxNotificationLen 0 0) % 2 ^ 32)
    rw [fragmentTexts, flatten_cons, length_append, Nat.succ_mul]
    omega

/-! ### Packets -/

/-- The label of the `i`-th of some packets. One packet alone has none. -/
def expectedLabels (n : Nat) : List (Option NotifValue) :=
  if n = 1 then [none] else (List.range n).map fun i => some (.string (fragmentLabel (i + 1) n))

/-- Every packet has room for its payload. They are numbered from `1` to their number,
and their texts, which fit into the buffer for a fragment with a zero behind them, give
the message. -/
def Reassembles (msg : List UInt8) (sent : List SentPacket) : Prop :=
  (∀ p ∈ sent, p.accepted = true) ∧
    sent.map (hashmapFind ·.object "notif_fragment") = expectedLabels sent.length ∧
    ∃ texts : List (List UInt8),
      sent.map (hashmapFind ·.object "notif_msg") = texts.map (fun t => some (.string t)) ∧
      texts.flatten = msg ∧
      (sent.length ≠ 1 → ∀ t ∈ texts, t.length + 1 ≤ maxNotificationLen + 1)

theorem sendFragments_members (msg : List UInt8) (fragments rounds : Nat) (pkt : NotifObject)
    (i fragBegin : Nat) :
    (sendFragments s msg fragments rounds pkt i fragBegin).map
        (hashmapFind ·.object "notif_fragment") =
        (List.range rounds).map (fun j => some (.string (fragmentLabel (i + j + 1) fragments))) ∧
      (sendFragments s msg fragments rounds pkt i fragBegin).map
          (hashmapFind ·.object "notif_msg") =
        (fragmentTexts msg rounds fragBegin).map (fun t => some (.string t)) := by
  induction rounds generalizing pkt i fragBegin with
  | zero => exact ⟨rfl, rfl⟩
  | succ rounds ih =>
    simp only [sendFragments, sendPacket, fragmentTexts, map_cons, range_succ_eq_map, map_map]
    refine ⟨cons_eq_cons.mpr ⟨?_, ?_⟩, cons_eq_cons.mpr ⟨?_, (ih _ _ _).2⟩⟩
    · rw [hashmapFind_insert, if_neg (by decide), hashmapFind_insert, if_pos rfl]
    · rw [(ih _ _ _).1]
      refine map_congr_left fun j _ => ?_
      simp only [Function.comp_apply]
      rw [Nat.add_right_comm i 1 j, Nat.add_assoc i j 1]
    · rw [hashmapFind_insert, if_pos rfl]

@[simp] theorem length_sendFragments (msg : List UInt8) (fragments rounds : Nat) (pkt : NotifObject)
    (i fragBegin : Nat) :
    (sendFragments s msg fragments rounds pkt i fragBegin).length = rounds := by
  have h := congrArg List.length
    (sendFragments_members s msg fragments rounds pkt i fragBegin).2
  simpa only [length_map, length_fragmentTexts] using h

/-! ### Room in a packet -/

theorem escapedWeight_le : escapedWeight c ≤ 6 := by
  unfold escapedWeight
  split_ifs <;> omega

theorem octetWeight_le_escapedWeight : octetWeight c ≤ escapedWeight c := by
  unfold octetWeight escapedWeight
  split_ifs <;> first | omega | simp_all [quoteOctet]

theorem escapedLength_le (text : List UInt8) : escapedLength text ≤ 6 * text.length := by
  induction text with
  | nil => exact Nat.le_refl 0
  | cons c text ih =>
    have := escapedWeight_le c
    rw [escapedLength, weight_cons, length_cons]
    rw [escapedLength] at ih
    omega

theorem messageWeight_le_escapedLength (text : List UInt8) :
    messageWeight text ≤ escapedLength text := by
  induction text with
  | nil => exact Nat.le_refl 0
  | cons c text ih =>
    have := octetWeight_le_escapedWeight c
    rw [messageWeight] at ih ⊢
    rw [escapedLength] at ih ⊢
    rw [weight_cons, weight_cons]
    omega

theorem length_fragmentLabel {i fragments : Nat} (hi : i < 10 ^ 8) (hn : fragments < 10 ^ 8) :
    (fragmentLabel i fragments).length ≤ 17 := by
  have hdigits : ∀ n < 10 ^ 8, (toString n).toList.length ≤ 8 := fun n h => by
    rw [Nat.toString_eq_ofList_toDigits, String.toList_ofList]
    exact (Nat.length_toDigits_le_iff (by decide) (by decide)).mpr h
  have hleft := hdigits i hi
  have hright := hdigits fragments hn
  simp only [fragmentLabel, asciiOctets, length_map, String.toList_append, length_append]
  have hslash : ("/" : String).toList.length = 1 := rfl
  omega

/-- The members of a packet: four that are always the same, and a text, with a label in
front of it if this is a fragment. -/
def packetMembers (label : Option (List UInt8)) (text : List UInt8) : NotifObject :=
  notificationHeader s ++
    (label.map fun l => ("notif_fragment", NotifValue.string l)).toList ++
    [("notif_msg", .string text)]

/-- The text of a packet has one of its message in it. -/
theorem escapedLength_lt_serialized (label : Option (List UInt8)) (text : List UInt8) :
    escapedLength text < serializedLength s (packetMembers s label text) ∧
      escapedLength s.hostname < serializedLength s (packetMembers s label text) := by
  cases label <;>
    simp [serializedLength, packetMembers, notificationHeader, hashmapInsert,
      NotifValue.serializedLength] <;> omega

theorem length_serialized_le (label : Option (List UInt8)) (text : List UInt8)
    (hlabel : ∀ l ∈ label, l.length ≤ 17) (htext : text.length ≤ maxNotificationLen) :
    serializedLength s (packetMembers s label text) ≤ 7476 + escapedLength s.hostname := by
  have hkeys : escapedLength (asciiOctets "notif_session") = 13 ∧
      escapedLength (asciiOctets "notif_seq") = 9 ∧
      escapedLength (asciiOctets "notif_tstamp") = 12 ∧
      escapedLength (asciiOctets "notif_hostname") = 14 ∧
      escapedLength (asciiOctets "notif_fragment") = 14 ∧
      escapedLength (asciiOctets "notif_msg") = 9 := by decide
  obtain ⟨hsession, hseq, htstamp, hhost, hfragment, hmsg⟩ := hkeys
  have hnumber := s.numberLength_le
  have hn1 := hnumber s.notifSessionid
  have hn2 := hnumber s.notifSeq
  have hn3 := hnumber s.now
  have hescaped := escapedLength_le text
  rw [maxNotificationLen] at htext
  cases label with
  | none =>
    simp [serializedLength, packetMembers, notificationHeader, hashmapInsert,
      NotifValue.serializedLength, hsession, hseq, htstamp, hhost, hmsg]
    omega
  | some l =>
    have := hlabel l rfl
    have := escapedLength_le l
    simp [serializedLength, packetMembers, notificationHeader, hashmapInsert,
      NotifValue.serializedLength, hsession, hseq, htstamp, hhost, hfragment, hmsg]
    omega

/-- Label and text of the fragment before are overridden. -/
theorem mem_sendFragments {s : Notifier} {msg : List UInt8} {fragments rounds : Nat}
    {pkt : NotifObject} {i fragBegin : Nat}
    (hpkt : pkt = notificationHeader s ∨ ∃ l t, pkt = packetMembers s (some l) t) {p : SentPacket}
    (hp : p ∈ sendFragments s msg fragments rounds pkt i fragBegin) :
    ∃ j < rounds, ∃ t ∈ fragmentTexts msg rounds fragBegin,
      p = sendPacket s (packetMembers s (some (fragmentLabel (i + j + 1) fragments)) t) := by
  induction rounds generalizing pkt i fragBegin with
  | zero => exact absurd hp not_mem_nil
  | succ rounds ih =>
    have hnext : ∀ l t, hashmapInsert (hashmapInsert pkt "notif_fragment" (.string l))
        "notif_msg" (.string t) = packetMembers s (some l) t := by
      intro l t
      obtain rfl | ⟨l', t', rfl⟩ := hpkt <;> rfl
    simp only [sendFragments, hnext, mem_cons] at hp
    obtain rfl | hp := hp
    · exact ⟨0, Nat.succ_pos _, _, mem_cons_self, rfl⟩
    · obtain ⟨j, hj, t, ht, rfl⟩ := ih (.inr ⟨_, _, rfl⟩) hp
      refine ⟨j + 1, Nat.succ_lt_succ hj, t, mem_cons_of_mem _ ht, ?_⟩
      rw [Nat.add_right_comm i 1 j, Nat.add_assoc i j 1]

/-! ### The number of fragments -/

/-- The weight that the source works with. -/
def countedWeight (msg : List UInt8) : Nat :=
  messageWeight (msg.take (msg.length % 2 ^ 32)) % 2 ^ 32

theorem fragmentCount_spec (total : Nat) : total ≤ fragmentCount total * maxNotificationLen ∧
      fragmentCount total * maxNotificationLen < total + maxNotificationLen := by
  have hcount : fragmentCount total =
      total / 1200 + if total > total / 1200 * 1200 then 1 else 0 := rfl
  rw [hcount, maxNotificationLen]
  grind

theorem sendNotificationMessage_eq (msg : List UInt8) :
    (sendNotificationMessage s msg).2 =
      if countedWeight msg ≤ maxNotificationLen then
        [sendPacket s (packetMembers s none msg)]
      else
        sendFragments s msg (fragmentCount (countedWeight msg)) (fragmentCount (countedWeight msg))
          (notificationHeader s) 0 0 := by
  have htotal : (unsignedLength msg + countQuotes msg (unsignedLength msg)) % 2 ^ 32 =
      countedWeight msg := by
    rw [unsignedLength, length_add_countQuotes (Nat.mod_le _ _), countedWeight]
  simp only [sendNotificationMessage, htotal]
  split_ifs
  · rfl
  · rfl

theorem countedWeight_lt (msg : List UInt8) : countedWeight msg < 2 ^ 32 :=
  Nat.mod_lt _ (by decide)

theorem countedWeight_of_lt (h : messageWeight msg < 2 ^ 32) :
    countedWeight msg = messageWeight msg := by
  have hlength := length_le_messageWeight msg
  rw [countedWeight, Nat.mod_eq_of_lt (by omega : msg.length < 2 ^ 32), take_length,
    Nat.mod_eq_of_lt h]

/-- A packet alone is right if its payload fits into the buffer. -/
theorem reassembles_single_iff (msg : List UInt8) :
    Reassembles msg [sendPacket s (packetMembers s none msg)] ↔
      serializedLength s (packetMembers s none msg) < packetBufLen := by
  constructor
  · rintro ⟨haccepted, -⟩
    exact of_decide_eq_true (haccepted _ mem_cons_self)
  · intro hroom
    refine ⟨?_, rfl, [msg], rfl, flatten_singleton, fun h => absurd rfl h⟩
    intro p hp
    rw [mem_singleton.mp hp]
    exact decide_eq_true hroom

theorem reassembles_fragments_iff {s : Notifier} {pkt : NotifObject} {n : Nat} (hn : n ≠ 1) :
    Reassembles msg (sendFragments s msg n n pkt 0 0) ↔
      (∀ p ∈ sendFragments s msg n n pkt 0 0, p.accepted = true) ∧
        (fragmentTexts msg n 0).flatten = msg := by
  obtain ⟨hlabels, htexts⟩ := sendFragments_members s msg n n pkt 0 0
  simp only [Nat.zero_add] at hlabels
  have hexpected : expectedLabels (sendFragments s msg n n pkt 0 0).length =
      (List.range n).map fun j => some (.string (fragmentLabel (j + 1) n)) := by
    rw [length_sendFragments, expectedLabels, if_neg hn]
  refine and_congr_right fun _ => ?_
  constructor
  · rintro ⟨-, texts, hsent, hflatten, -⟩
    rw [htexts] at hsent
    have hsame : fragmentTexts msg n 0 = texts := by
      refine map_injective_iff.mpr (fun t t' h => ?_) hsent
      simpa using h
    rw [hsame, hflatten]
  · intro hflatten
    refine ⟨hlabels.trans hexpected.symm, fragmentTexts msg n 0, htexts, hflatten, fun _ t ht => ?_⟩
    exact Nat.succ_le_succ (length_of_mem_fragmentTexts msg n 0 ht)

theorem fragmentCount_ne_one {total : Nat} (h : ¬ total ≤ maxNotificationLen) :
    fragmentCount total ≠ 1 := by
  have := fragmentCount_spec total
  intro hone
  rw [hone] at this
  omega

/-- As long as the weight fits, the fragments are the message. -/
theorem flatten_of_fits (hmsg : (0 : UInt8) ∉ msg) (hfits : messageWeight msg < 2 ^ 32) :
    (fragmentTexts msg (fragmentCount (countedWeight msg)) 0).flatten = msg := by
  have hlength := length_le_messageWeight msg
  rw [fragmentTexts_eq_pieces hmsg (by omega) 0 (Nat.zero_le _), drop_zero]
  refine flatten_pieces octetWeight _ _ msg ?_ octetWeight_pos
  have hcount := (fragmentCount_spec (countedWeight msg)).1
  rw [countedWeight_of_lt hfits] at hcount ⊢
  exact hcount

/-- If the name of the host leaves room, every packet is accepted. There are less than four
million fragments, so a label is short. -/
theorem reassembles_of_fits {s : Notifier} (hhost : escapedLength s.hostname ≤ 2500)
    (hmsg : (0 : UInt8) ∉ msg) (hfits : messageWeight msg < 2 ^ 32) :
    Reassembles msg (sendNotificationMessage s msg).2 := by
  rw [sendNotificationMessage_eq]
  by_cases hone : countedWeight msg ≤ maxNotificationLen
  · rw [if_pos hone, reassembles_single_iff]
    rw [countedWeight_of_lt hfits] at hone
    have hlen := length_serialized_le s none msg nofun
      (Nat.le_trans (length_le_messageWeight msg) hone)
    rw [packetBufLen]
    omega
  · rw [if_neg hone, reassembles_fragments_iff (fragmentCount_ne_one hone)]
    refine ⟨fun p hp => ?_, flatten_of_fits hmsg hfits⟩
    obtain ⟨j, hj, t, ht, rfl⟩ := mem_sendFragments (.inl rfl) hp
    have hcounted := countedWeight_lt msg
    have hcount := (fragmentCount_spec (countedWeight msg)).2
    rw [maxNotificationLen] at hcount
    have hlen := length_serialized_le s (some (fragmentLabel (0 + j + 1)
      (fragmentCount (countedWeight msg)))) t
      (fun l hl => by
        rw [← Option.some.inj hl]
        exact length_fragmentLabel (by omega) (by omega))
      (length_of_mem_fragmentTexts msg _ 0 ht)
    refine decide_eq_true ?_
    rw [packetBufLen]
    omega

/-- Fragments for a weight that did not fit are not the message. A message whose length
is still right has too much weight for them, and any longer one is too long. -/
theorem flatten_ne_of_not_fits (hmsg : (0 : UInt8) ∉ msg) (hweight : 2 ^ 32 ≤ messageWeight msg) :
    (fragmentTexts msg (fragmentCount (countedWeight msg)) 0).flatten ≠ msg := by
  have hcounted := countedWeight_lt msg
  obtain ⟨-, hcount⟩ := fragmentCount_spec (countedWeight msg)
  intro hflatten
  by_cases hlength : msg.length < 2 ^ 32
  · have hleft : countedWeight msg + 2 ^ 32 ≤ messageWeight msg := by
      rw [countedWeight, Nat.mod_eq_of_lt hlength, take_length]
      omega
    have hpieces := weight_pieces_le octetWeight octetWeight_le maxNotificationLen
      (fragmentCount (countedWeight msg)) msg
    rw [fragmentTexts_eq_pieces hmsg hlength 0 (Nat.zero_le _), drop_zero] at hflatten
    rw [hflatten] at hpieces
    simp only [maxNotificationLen] at hpieces hcount
    rw [messageWeight] at hleft
    omega
  · have hshort := length_flatten_fragmentTexts msg (fragmentCount (countedWeight msg)) 0
    have htaken := messageWeight_le (msg.take (msg.length % 2 ^ 32))
    have hle : countedWeight msg ≤ messageWeight (msg.take (msg.length % 2 ^ 32)) := Nat.mod_le _ _
    rw [length_take] at htaken
    rw [hflatten] at hshort
    simp only [maxNotificationLen] at hshort hcount
    omega

/-- A message that is too heavy has a packet that is too long, or an end that is missing. -/
theorem fits_of_reassembles {s : Notifier} (hmsg : (0 : UInt8) ∉ msg)
    (h : Reassembles msg (sendNotificationMessage s msg).2) : messageWeight msg < 2 ^ 32 := by
  rw [sendNotificationMessage_eq] at h
  by_contra hheavy
  have hweight : 2 ^ 32 ≤ messageWeight msg := Nat.not_lt.mp hheavy
  by_cases hone : countedWeight msg ≤ maxNotificationLen
  · rw [if_pos hone, reassembles_single_iff, packetBufLen] at h
    have htext := (escapedLength_lt_serialized s none msg).1
    have := messageWeight_le_escapedLength msg
    omega
  · rw [if_neg hone, reassembles_fragments_iff (fragmentCount_ne_one hone)] at h
    exact flatten_ne_of_not_fits hmsg hweight h.2

/-- A name that alone is as long as the buffer leaves no room for a packet. -/
theorem hostname_of_reassembles {s : Notifier}
    (h : Reassembles msg (sendNotificationMessage s msg).2) :
    escapedLength s.hostname < packetBufLen := by
  rw [sendNotificationMessage_eq] at h
  by_cases hone : countedWeight msg ≤ maxNotificationLen
  · rw [if_pos hone, reassembles_single_iff] at h
    exact Nat.lt_trans (escapedLength_lt_serialized s none msg).2 h
  · rw [if_neg hone] at h
    obtain ⟨haccepted, -⟩ := h
    have hcount := (fragmentCount_spec (countedWeight msg)).1
    obtain ⟨p, hp⟩ := exists_mem_of_length_pos
      (l := sendFragments s msg (fragmentCount (countedWeight msg))
        (fragmentCount (countedWeight msg)) (notificationHeader s) 0 0) (by
        rw [length_sendFragments]
        refine Nat.pos_of_ne_zero fun hzero => hone ?_
        rw [hzero, Nat.zero_mul] at hcount
        omega)
    have hroom := haccepted p hp
    obtain ⟨j, -, t, -, rfl⟩ := mem_sendFragments (.inl rfl) hp
    exact Nat.lt_trans (escapedLength_lt_serialized s _ t).2 (of_decide_eq_true hroom)

/-- The message can only be put together from the packets if its weight fits into an
`unsigned` and the name of the host into the buffer of a packet. If this name takes a
quarter of the buffer or less, the weight decides. -/
theorem sendNotificationMessage_reassembles_iff (msg : List UInt8) (hmsg : (0 : UInt8) ∉ msg) :
    (escapedLength s.hostname ≤ 2500 →
      (Reassembles msg (sendNotificationMessage s msg).2 ↔ messageWeight msg < 2 ^ 32)) ∧
      (Reassembles msg (sendNotificationMessage s msg).2 →
        messageWeight msg < 2 ^ 32 ∧ escapedLength s.hostname < packetBufLen) :=
  ⟨fun hhost => ⟨fits_of_reassembles hmsg, reassembles_of_fits hhost hmsg⟩,
    fun h => ⟨fits_of_reassembles hmsg h, hostname_of_reassembles h⟩⟩

/-- A host with a name of one letter, on which every number takes one character. -/
def shortNotifier : Notifier := ⟨1, 0, [110], 0, fun _ => 1, fun _ => by decide⟩

/-- A message of quotes, long enough for several fragments. -/
theorem sendNotificationMessage_reassembles_quotes :
    (0 : UInt8) ∉ List.replicate 2000 quoteOctet ∧
      Reassembles (List.replicate 2000 quoteOctet)
        (sendNotificationMessage shortNotifier (List.replicate 2000 quoteOctet)).2 := by
  have hzero : (0 : UInt8) ∉ List.replicate 2000 quoteOctet := fun h =>
    absurd (eq_of_mem_replicate h) (by decide)
  have hfits : messageWeight (List.replicate 2000 quoteOctet) < 2 ^ 32 := by
    refine Nat.lt_of_le_of_lt (messageWeight_le _) ?_
    rw [length_replicate]
    decide
  exact ⟨hzero,
    ((sendNotificationMessage_reassembles_iff _ _ hzero).1 (by decide)).mpr hfits⟩

theorem messageWeight_replicate_quote (n : Nat) :
    messageWeight (List.replicate n quoteOctet) = 2 * n := by
  induction n with
  | zero => rfl
  | succ n ih =>
    rw [replicate_succ, messageWeight, weight_cons]
    rw [messageWeight] at ih
    rw [ih, octetWeight, if_pos rfl]
    omega

/-- A message of 2147484648 quotes weighs 4294969296, of which 2000 are left: it is sent
in two fragments of 600 quotes each. -/
theorem quotes_not_reassembled :
    ¬ Reassembles (List.replicate (2 ^ 31 + 1000) quoteOctet)
      (sendNotificationMessage shortNotifier (List.replicate (2 ^ 31 + 1000) quoteOctet)).2 := by
  intro h
  have hzero : (0 : UInt8) ∉ List.replicate (2 ^ 31 + 1000) quoteOctet := fun h =>
    absurd (eq_of_mem_replicate h) (by decide)
  have hfits := fits_of_reassembles hzero h
  rw [messageWeight_replicate_quote] at hfits
  omega

end Dnt
