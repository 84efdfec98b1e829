import Dnt.Theory.Notification.Fragments

/-!
# Sizes of Notification Packets

The cutting counts a quote twice, for the backslash it gets, but not a backslash,
which gets one as well, or a control character, and it looks for room in front of a
character and not behind it. Where none of this matters, every fragment but the last
weighs exactly 1200, and only then no fragment is left without text.

## Main definitions

* `NotificationSized`: The packets have the intended size.
* `SizedMessage`: What the message has to be like for this.

## Theorems

* `sendNotificationMessage_sized_iff`: The packets have the intended size exactly if
  every stretch of 1200 of the message has it.
* `jsonText_oversized`: An object with a string of 1190 letters has a fragment that is
  too long.
-/

namespace Dnt

open List

variable {msg : List UInt8}

/-- The packets have texts of at most 1200 characters, and those of the fragments are not
empty. -/
def NotificationSized (sent : List SentPacket) : Prop :=
  ∀ p ∈ sent, ∃ text, hashmapFind p.object "notif_msg" = some (.string text) ∧
    escapedLength text ≤ maxNotificationLen ∧
    (hashmapFind p.object "notif_fragment" ≠ none → text ≠ [])

/-- What the message has to be like. It counts as small and is, or else each stretch of it that
becomes a fragment is. -/
def SizedMessage (msg : List UInt8) : Prop :=
  if messageWeight msg % 2 ^ 32 ≤ maxNotificationLen then escapedLength msg ≤ maxNotificationLen
  else ∀ k < fragmentCount (messageWeight msg % 2 ^ 32),
    escapedLength (Pieces.block octetWeight maxNotificationLen k 0 msg) ≤ maxNotificationLen

theorem sized_single_iff (s : Notifier) (msg : List UInt8) :
    NotificationSized [sendPacket s (packetMembers s none msg)] ↔
      escapedLength msg ≤ maxNotificationLen := by
  have hlabel : hashmapFind (packetMembers s none msg) "notif_fragment" = none := rfl
  have htext : hashmapFind (packetMembers s none msg) "notif_msg" = some (.string msg) := rfl
  simp [NotificationSized, sendPacket, hlabel, htext]

theorem sized_fragments_iff {n : Nat} (s : Notifier) (pkt : NotifObject) :
    NotificationSized (sendFragments s msg n n pkt 0 0) ↔
      ∀ t ∈ fragmentTexts msg n 0, escapedLength t ≤ maxNotificationLen ∧ t ≠ [] := by
  obtain ⟨hlabels, htexts⟩ := sendFragments_members s msg n n pkt 0 0
  have hlabel : ∀ p ∈ sendFragments s msg n n pkt 0 0,
      hashmapFind p.object "notif_fragment" ≠ none := by
    intro p hp hnone
    have hmem := mem_map_of_mem (f := (hashmapFind ·.object "notif_fragment")) hp
    rw [hlabels, hnone] at hmem
    obtain ⟨j, -, hno⟩ := mem_map.mp hmem
    cases hno
  have hall : NotificationSized (sendFragments s msg n n pkt 0 0) ↔
      ∀ v ∈ (sendFragments s msg n n pkt 0 0).map (hashmapFind ·.object "notif_msg"),
        ∃ text, v = some (.string text) ∧ escapedLength text ≤ maxNotificationLen ∧ text ≠ [] := by
    rw [forall_mem_map]
    refine forall₂_congr fun p hp => exists_congr fun text => ?_
    rw [imp_iff_right (hlabel p hp)]
  rw [hall, htexts, forall_mem_map]
  simp

theorem countedWeight_of_length (hlen : unsignedLength msg = msg.length) :
    countedWeight msg = messageWeight msg % 2 ^ 32 := by
  rw [unsignedLength] at hlen
  rw [countedWeight, hlen, take_length]

/-- The packets of a message that is given with its length have the intended size exactly if
its stretches do. -/
theorem sendNotificationMessage_sized_iff (s : Notifier) (msg : List UInt8)
    (hmsg : (0 : UInt8) ∉ msg) (hlen : unsignedLength msg = msg.length) :
    NotificationSized (sendNotificationMessage s msg).2 ↔ SizedMessage msg := by
  rw [sendNotificationMessage_eq, countedWeight_of_length hlen, SizedMessage]
  by_cases hone : messageWeight msg % 2 ^ 32 ≤ maxNotificationLen
  · rw [if_pos hone, if_pos hone]
    exact sized_single_iff s msg
  · have hlength : msg.length < 2 ^ 32 := hlen ▸ Nat.mod_lt _ (by decide)
    have hcount := (fragmentCount_spec (messageWeight msg % 2 ^ 32)).2
    have hmod := Nat.mod_le (messageWeight msg) (2 ^ 32)
    rw [if_neg hone, if_neg hone, sized_fragments_iff,
      fragmentTexts_eq_pieces hmsg hlength 0 (Nat.zero_le _), drop_zero]
    have hiff := Pieces.forall_mem_pieces_iff octetWeight (by decide)
      (P := fun t => escapedLength t ≤ maxNotificationLen)
      (fun t => Nat.le_trans (messageWeight_le_escapedLength t)) (k := 0)
      (Nat.lt_of_lt_of_le hcount (Nat.add_le_add_right hmod _))
    simpa only [Nat.zero_mul, Nat.zero_add] using hiff

/-- A message of 1300 letters goes in two fragments. -/
theorem sendNotificationMessage_sized_letters :
    (0 : UInt8) ∉ List.replicate 1300 97 ∧
      NotificationSized (sendNotificationMessage shortNotifier (List.replicate 1300 97)).2 := by
  have hzero : (0 : UInt8) ∉ List.replicate 1300 97 := fun h =>
    absurd (eq_of_mem_replicate h) (by decide)
  refine ⟨hzero, (sendNotificationMessage_sized_iff _ _ hzero ?_).mpr ?_⟩
  · rw [unsignedLength, length_replicate]
    rfl
  · unfold SizedMessage
    decide +kernel

/-- An object with one member, a string of 1190 letters: the quote that ends the string
is behind a weight of 1199, and still goes into the first fragment. -/
theorem jsonText_oversized :
    ¬ NotificationSized (sendNotificationMessage shortNotifier
      ([123, 34, 97, 34, 58, 34] ++ List.replicate 1190 97 ++ [34, 125])).2 := by
  have hcount : countedWeight ([123, 34, 97, 34, 58, 34] ++ List.replicate 1190 97 ++ [34, 125]) =
      1202 := by
    decide +kernel
  rw [sendNotificationMessage_eq, hcount, if_neg (by decide), sized_fragments_iff,
    fragmentTexts_eq_pieces (by decide +kernel) (by decide +kernel) 0 (Nat.zero_le _)]
  intro h
  exact absurd (h _ mem_cons_self).1 (by decide +kernel)

end Dnt
