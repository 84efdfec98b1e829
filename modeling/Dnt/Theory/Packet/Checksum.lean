import Dnt.Theory.Packet.Coverage

/-!
# Checksums that are Computed and Checked

`checksum_compute` clears the checksum field, sums the packet up, and writes what
the sum lacks. `checksum_verify` sums up again, with the field, and the two do not
always agree on the rest.

A sum in words of 16 bits loses carries, and the sum with the field may lose one
more or one less. And for headers between the IP header and the one with the
checksum, `payload_length` takes off the length of the latter, so too little may be
left to cover the field.

A UDP checksum of zero says that there is none. Nothing is done about it, so zero is
stored for the same sums for which it is accepted.

Which words are added is told by the octets and addresses of a packet, and so is
whether a carry is lost. What is to be stored then is the checksum of the octets.

## Main definitions

* `ChecksumPlaced`: The header has room for its checksum, and no headers overlap.
* `setField`: The packet with two octets in its checksum field.
* `octetsChecksum`: The Internet checksum of the octets that are summed up for a packet.
* `filled`: The packet with the Internet checksum of its octets in the field.
* `FieldCounted`: The part of this checksum that is not summed up is zero.

## Theorems

* `chainSum_setField`: What the field adds to the sum of a packet.
* `checksumCompute_eq_filled`: Where no carry is lost, the Internet checksum is stored.
* `covered_of_consistent`: The field is summed up if the lengths in the packet are right.
* `checksumVerify_checksumCompute_iff`: Where no carry is lost, a computed checksum passes
  the check just if the field counts. Where the field is covered and only the check may lose
  carries, it passes just if it loses none.
* `udp_zero_iff`: Where no carry is lost, zero is stored for a UDP header, and accepted, just
  if it is the Internet checksum.
-/

namespace Dnt

variable {hs : List PacketHeader}

open OnesComplement Memory

variable {cp : ChecksumParameters} {hdrIdx i k len n offset pseudoAddr : Nat} {proto : ProtocolID}
  {protoid : UInt8}

open List

/-! ### The field -/

def Packet.withField (p : Packet) (pos : Nat) (f₀ f₁ : UInt8) : Packet :=
  { p with buf := store p.buf ⟨pos, [f₀, f₁]⟩ }

variable {p : Packet}

theorem withField_buf_of_ne (p : Packet) {pos : Nat} (f₀ f₁ : UInt8) (h₀ : i ≠ pos)
    (h₁ : i ≠ pos + 1) : (p.withField pos f₀ f₁).buf i = p.buf i := by
  refine store_apply_of_not_covers _ _ _ fun hcovers => ?_
  have : pos ≤ i ∧ i < pos + 2 := hcovers
  omega

theorem withField_buf_fst (p : Packet) (pos : Nat) (f₀ f₁ : UInt8) :
    (p.withField pos f₀ f₁).buf pos = f₀ :=
  store_apply_add p.buf pos [f₀, f₁] 0 Nat.zero_lt_two

theorem withField_buf_snd (p : Packet) (pos : Nat) (f₀ f₁ : UInt8) :
    (p.withField pos f₀ f₁).buf (pos + 1) = f₁ :=
  store_apply_add p.buf pos [f₀, f₁] 1 Nat.one_lt_two

/-- Where the checksum is, and that nothing else is there: the header has room for it,
its IP header is before it and complete, and no two headers overlap. -/
structure ChecksumPlaced (p : Packet) (cp : ChecksumParameters) (offset : Nat) : Prop where
  proto : checksumOffset cp.hdrProto = some offset
  hdrIdx : cp.hdrIdx < p.headers.length
  room : offset + 2 ≤ headerLen p cp.hdrIdx
  ipIdx : cp.hdrProto ≠ .ipv4 → cp.ipIdx < cp.hdrIdx
  ipLen : cp.hdrProto ≠ .ipv4 → (if cp.ipVersion = .ipv4 then 20 else 40) ≤ headerLen p cp.ipIdx
  count : p.headers.length ≤ packetMaxHeaderNum
  apart : ∀ i < p.headers.length, ∀ j < p.headers.length, i ≠ j →
    headerStart p i + headerLen p i ≤ headerStart p j ∨
      headerStart p j + headerLen p j ≤ headerStart p i

theorem checksumOffset_even (h : checksumOffset proto = some offset) :
    offset % 2 = 0 ∧ 2 ≤ offset := by
  unfold checksumOffset at h
  split at h
  all_goals cases h
  all_goals decide

/-- How many octets of this header are added. -/
def coveredLength (p : Packet) (cp : ChecksumParameters) : Nat :=
  if cp.hdrProto = .ipv4 then (p.buf (headerStart p cp.hdrIdx)).toNat % 2 ^ 4 * 4
  else min (payloadLength p cp) (headerLen p cp.hdrIdx)

section Placed

variable {p : Packet} {cp : ChecksumParameters} {offset : Nat} (h : ChecksumPlaced p cp offset)
  (f₀ f₁ : UInt8)

/-- The packet with two octets in its checksum field. -/
def setField (p : Packet) (cp : ChecksumParameters) (offset : Nat) (f₀ f₁ : UInt8) : Packet :=
  p.withField (headerStart p cp.hdrIdx + offset) f₀ f₁

@[simp] theorem headerStart_setField (p : Packet) (cp : ChecksumParameters) (offset : Nat)
    (f₀ f₁ : UInt8) (i : Nat) :
    headerStart (setField p cp offset f₀ f₁) i = headerStart p i := rfl

@[simp] theorem headerLen_setField (p : Packet) (cp : ChecksumParameters) (offset : Nat)
    (f₀ f₁ : UInt8) (i : Nat) : headerLen (setField p cp offset f₀ f₁) i = headerLen p i := rfl

include h

theorem setField_buf_header (hi : i < p.headers.length) (hne : i ≠ cp.hdrIdx)
    (hk : k < headerLen p i) :
    (setField p cp offset f₀ f₁).buf (headerStart p i + k) = p.buf (headerStart p i + k) := by
  have hroom := h.room
  have hapart := h.apart i hi cp.hdrIdx h.hdrIdx hne
  refine withField_buf_of_ne p f₀ f₁ ?_ ?_
  · omega
  · omega

theorem setField_buf_ip (hip : cp.hdrProto ≠ .ipv4)
    (hk : k < if cp.ipVersion = .ipv4 then 20 else 40) :
    (setField p cp offset f₀ f₁).buf (headerStart p cp.ipIdx + k) =
      p.buf (headerStart p cp.ipIdx + k) := by
  have hipIdx := h.ipIdx hip
  have hhdrIdx := h.hdrIdx
  exact setField_buf_header h f₀ f₁ (by omega) (by omega) (Nat.lt_of_lt_of_le hk (h.ipLen hip))

theorem load_setField_ip (hip : cp.hdrProto ≠ .ipv4)
    (hn : k + n ≤ if cp.ipVersion = .ipv4 then 20 else 40) :
    load (setField p cp offset f₀ f₁).buf (headerStart p cp.ipIdx + k) n =
      load p.buf (headerStart p cp.ipIdx + k) n := by
  refine load_congr _ _ _ _ fun j hj => ?_
  rw [Nat.add_assoc]
  exact setField_buf_ip h f₀ f₁ hip (by omega)

theorem payloadLength_setField (hip : cp.hdrProto ≠ .ipv4) :
    payloadLength (setField p cp offset f₀ f₁) cp = payloadLength p cp := by
  have hbuf (k : Nat) (hk : k < 20) :
      (setField p cp offset f₀ f₁).buf (headerStart p cp.ipIdx + k) =
        p.buf (headerStart p cp.ipIdx + k) := by
    refine setField_buf_ip h f₀ f₁ hip ?_
    split_ifs <;> omega
  have hfirst := hbuf 0 (by decide)
  rw [Nat.add_zero] at hfirst
  simp [payloadLength, number16, headerStart_setField, headerLen_setField, hfirst,
    hbuf 2 (by decide), hbuf 3 (by decide), hbuf 4 (by decide), hbuf 5 (by decide)]

theorem coveredLength_setField :
    coveredLength (setField p cp offset f₀ f₁) cp = coveredLength p cp := by
  have heven := checksumOffset_even h.proto
  unfold coveredLength
  split_ifs with hip
  · have hfirst : (setField p cp offset f₀ f₁).buf (headerStart p cp.hdrIdx) =
        p.buf (headerStart p cp.hdrIdx) := withField_buf_of_ne p f₀ f₁ (by omega) (by omega)
    rw [headerStart_setField, hfirst]
  · rw [payloadLength_setField h f₀ f₁ hip, headerLen_setField]

theorem pseudoPieces_setField (hip : cp.hdrProto ≠ .ipv4) (pseudoAddr : Nat) (protoid : UInt8)
    (len : Nat) : pseudoPieces pseudoAddr (setField p cp offset f₀ f₁) cp protoid len =
      pseudoPieces pseudoAddr p cp protoid len := by
  simp only [pseudoPieces, headerStart_setField]
  split_ifs with hversion
  · rw [load_setField_ip h f₀ f₁ hip (by rw [if_pos hversion])]
  · rw [load_setField_ip h f₀ f₁ hip (by rw [if_neg hversion])]

omit h in
theorem headerPieces_congr {p' : Packet} (len : Nat)
    (hbuf : ∀ hd ∈ hs, ∀ k < hd.len, p'.buf (hd.start + k) = p.buf (hd.start + k)) :
    headerPieces p' hs len = headerPieces p hs len := by
  induction hs generalizing len with
  | nil => rfl
  | cons hd hs ih =>
    obtain ⟨hhd, hhs⟩ := forall_mem_cons.mp hbuf
    have hload : load p'.buf hd.start (min len hd.len) =
        load p.buf hd.start (min len hd.len) :=
      load_congr _ _ _ _ fun k hk => hhd k (Nat.lt_of_lt_of_le hk (Nat.min_le_right _ _))
    rw [headerPieces, headerPieces, hload, ih _ hhs]

theorem headerPieces_after_setField (len : Nat) :
    headerPieces (setField p cp offset f₀ f₁) (p.headers.drop (cp.hdrIdx + 1)) len =
      headerPieces p (p.headers.drop (cp.hdrIdx + 1)) len := by
  refine headerPieces_congr _ fun hd hmem k hk => ?_
  obtain ⟨j, hj, rfl⟩ := mem_iff_getElem.mp hmem
  rw [length_drop] at hj
  have hin : cp.hdrIdx + 1 + j < p.headers.length := by omega
  have hget : (p.headers.drop (cp.hdrIdx + 1))[j] = p.headers[cp.hdrIdx + 1 + j] := getElem_drop ..
  rw [hget] at hk ⊢
  rw [← headerStart_of_lt hin]
  exact setField_buf_header h f₀ f₁ hin (by omega) (headerLen_of_lt hin ▸ hk)

omit h in
theorem headerPieces_drop {idx : Nat} (p : Packet) (hidx : idx < p.headers.length) (len : Nat) :
    headerPieces p (p.headers.drop idx) len =
      (headerStart p idx, load p.buf (headerStart p idx) (min len (headerLen p idx))) ::
        headerPieces p (p.headers.drop (idx + 1)) (len - min len (headerLen p idx)) := by
  rw [drop_eq_getElem_cons hidx, headerPieces, headerStart_of_lt hidx, headerLen_of_lt hidx]

/-- The field is in one of the pieces, and the pieces before and behind it do not depend on
what is in it. -/
theorem packetPieces_setField (pseudoAddr : Nat) : ∃ before after, ∀ f₀ f₁,
    packetPieces pseudoAddr (setField p cp offset f₀ f₁) cp =
      before ++ (headerStart p cp.hdrIdx, load (setField p cp offset f₀ f₁).buf
        (headerStart p cp.hdrIdx) (coveredLength p cp)) :: after := by
  by_cases hip : cp.hdrProto = .ipv4
  · refine ⟨[], [], fun f₀ f₁ => ?_⟩
    have hcovered := coveredLength_setField h f₀ f₁
    unfold coveredLength at hcovered ⊢
    rw [if_pos hip, if_pos hip] at hcovered
    rw [packetPieces, if_pos hip, if_pos hip, ipv4Octets, ipv4Length, hcovered]
    rfl
  · refine ⟨(layer4Protoid cp.hdrProto).elim [] fun protoid =>
        pseudoPieces pseudoAddr p cp protoid (payloadLength p cp),
      headerPieces p (p.headers.drop (cp.hdrIdx + 1))
        (payloadLength p cp - coveredLength p cp), fun f₀ f₁ => ?_⟩
    have hdrop := headerPieces_drop (setField p cp offset f₀ f₁) h.hdrIdx (payloadLength p cp)
    have hcovered : coveredLength p cp = min (payloadLength p cp) (headerLen p cp.hdrIdx) :=
      if_neg hip
    rw [headerStart_setField, headerLen_setField, ← hcovered,
      show (setField p cp offset f₀ f₁).headers = p.headers from rfl,
      headerPieces_after_setField h] at hdrop
    rw [packetPieces, if_neg hip, checksumPieces, payloadLength_setField h f₀ f₁ hip,
      show (setField p cp offset f₀ f₁).headers = p.headers from rfl, hdrop]
    cases layer4Protoid cp.hdrProto with
    | none => rfl
    | some protoid => exact congrArg (· ++ _) (pseudoPieces_setField h f₀ f₁ hip _ _ _)

/-! ### What the field adds -/

/-- The part of the field behind the first `n` octets of the header. -/
def unseen (offset n : Nat) (f₀ f₁ : UInt8) : Nat :=
  (if offset < n then 0 else f₀.toNat) + (if offset + 1 < n then 0 else f₁.toNat * 2 ^ 8)

theorem octetSum_load_setField (n : Nat) :
    octetSum false (load (setField p cp offset f₀ f₁).buf (headerStart p cp.hdrIdx) n) +
        unseen offset n f₀ f₁ =
      octetSum false (load (setField p cp offset 0 0).buf (headerStart p cp.hdrIdx) n) +
        octetSum false [f₀, f₁] := by
  have heven := checksumOffset_even h.proto
  induction n with
  | zero => simp only [load, range_zero, map_nil, unseen, Nat.not_lt_zero,
      if_false, octetSum, Nat.add_zero]
  | succ n ih =>
    rw [load_succ, load_succ, (octetSum_snoc).1, (octetSum_snoc).1,
      length_load, length_load]
    -- the octet is the first of the field, or the second, or outside
    by_cases hfst : n = offset
    · have hpos : headerStart p cp.hdrIdx + n = headerStart p cp.hdrIdx + offset := by omega
      rw [hpos, setField, setField, withField_buf_fst, withField_buf_fst, if_pos (by omega)]
      rw [setField, setField] at ih
      simp only [unseen] at ih ⊢
      rw [if_neg (by omega), if_neg (by omega)] at ih
      rw [if_pos (by omega), if_neg (by omega)]
      simp only [UInt8.toNat_zero]
      omega
    by_cases hsnd : n = offset + 1
    · have hpos : headerStart p cp.hdrIdx + n = headerStart p cp.hdrIdx + offset + 1 := by omega
      rw [hpos, setField, setField, withField_buf_snd, withField_buf_snd, if_neg (by omega)]
      rw [setField, setField] at ih
      simp only [unseen] at ih ⊢
      rw [if_pos (by omega), if_neg (by omega)] at ih
      rw [if_pos (by omega), if_pos (by omega)]
      simp only [UInt8.toNat_zero]
      omega
    · have hunseen : unseen offset (n + 1) f₀ f₁ = unseen offset n f₀ f₁ := by
        have hfst' : offset < n + 1 ↔ offset < n := by omega
        have hsnd' : offset + 1 < n + 1 ↔ offset + 1 < n := by omega
        simp only [unseen, hfst', hsnd']
      have hsame (g₀ g₁ : UInt8) : (setField p cp offset g₀ g₁).buf
          (headerStart p cp.hdrIdx + n) = p.buf (headerStart p cp.hdrIdx + n) :=
        withField_buf_of_ne p g₀ g₁ (by omega) (by omega)
      rw [hunseen, hsame, hsame]
      omega

omit h in
/-- The address of the pseudo header has no influence on the octets. -/
theorem chainSum_packetPieces (pseudoAddr pseudoAddr' : Nat) (p : Packet)
    (cp : ChecksumParameters) :
    chainSum (packetPieces pseudoAddr p cp) = chainSum (packetPieces pseudoAddr' p cp) := by
  simp only [packetPieces, checksumPieces]
  split_ifs
  · rfl
  · cases layer4Protoid cp.hdrProto with
    | none => rfl
    | some protoid =>
      simp only [chainSum_append, pseudoPieces]
      split_ifs
      · rfl
      · rfl

theorem chainSum_setField (pseudoAddr pseudoAddr' : Nat) :
    chainSum (packetPieces pseudoAddr' (setField p cp offset f₀ f₁) cp) +
        unseen offset (coveredLength p cp) f₀ f₁ =
      chainSum (packetPieces pseudoAddr (setField p cp offset 0 0) cp) +
        octetSum false [f₀, f₁] := by
  have hfield := octetSum_load_setField h f₀ f₁ (coveredLength p cp)
  obtain ⟨before, after, hpieces⟩ := packetPieces_setField h pseudoAddr
  rw [chainSum_packetPieces pseudoAddr' pseudoAddr, hpieces, hpieces]
  simp only [chainSum_append, chainSum_cons]
  omega

end Placed

theorem length_headerPieces (p : Packet) (hs : List PacketHeader) (len : Nat) :
    (headerPieces p hs len).length = hs.length := by
  induction hs generalizing len with
  | nil => rfl
  | cons h hs ih => rw [headerPieces, length_cons, ih, length_cons]

theorem length_packetPieces (pseudoAddr : Nat) (p : Packet) (cp : ChecksumParameters) :
    (packetPieces pseudoAddr p cp).length ≤ p.headers.length + 2 := by
  have hdrop : (headerPieces p (p.headers.drop cp.hdrIdx) (payloadLength p cp)).length ≤
      p.headers.length := by
    rw [length_headerPieces, length_drop]
    exact Nat.sub_le _ _
  unfold packetPieces checksumPieces
  split_ifs
  · exact Nat.le_add_left 1 _
  · split
    · omega
    · simp only [pseudoPieces]
      split_ifs
      all_goals
        rw [length_append, length_cons, length_singleton]
        omega

/-! ### Computing and checking -/

/-- The Internet checksum of the octets that are summed up. The address of the pseudo header
is not part of them. -/
def octetsChecksum (p : Packet) (cp : ChecksumParameters) : Nat :=
  piecesChecksum (packetPieces 0 p cp)

/-- The packet with the Internet checksum of its octets in the field. -/
def filled (p : Packet) (cp : ChecksumParameters) (offset : Nat) : Packet :=
  let csum := octetsChecksum (setField p cp offset 0 0) cp
  setField p cp offset (UInt8.ofNat (csum / 2 ^ 8)) (UInt8.ofNat csum)

theorem octetsChecksum_eq (pseudoAddr : Nat) (p : Packet) (cp : ChecksumParameters) :
    octetsChecksum p cp = exchanged (missing (chainSum (packetPieces pseudoAddr p cp))) := by
  rw [octetsChecksum, piecesChecksum_eq, chainSum_packetPieces 0 pseudoAddr]

theorem octetsChecksum_lt (p : Packet) (cp : ChecksumParameters) :
    octetsChecksum p cp < 2 ^ 16 := by
  rw [octetsChecksum_eq 0]
  exact exchanged_lt (missing_lt _)

theorem packetChecksum_of_noCarryLost (hoffset : checksumOffset cp.hdrProto = some offset)
    (hkept : NoCarryLost (packetPieces pseudoAddr p cp)) :
    packetChecksum pseudoAddr p cp = octetsChecksum p cp := by
  rw [packetChecksum_eq_pieces pseudoAddr p hoffset, csumFold_csumChain_of_noCarryLost hkept,
    piecesChecksum_eq, octetsChecksum_eq pseudoAddr]

theorem checksumCompute_eq (pseudoAddr : Nat) (p : Packet)
    (hoffset : checksumOffset cp.hdrProto = some offset) :
    checksumCompute pseudoAddr p cp =
      setField p cp offset
        (UInt8.ofNat (packetChecksum pseudoAddr (setField p cp offset 0 0) cp / 2 ^ 8))
        (UInt8.ofNat (packetChecksum pseudoAddr (setField p cp offset 0 0) cp)) := by
  simp only [checksumCompute, checksumStores, hoffset, storeAll_cons, storeAll_nil]
  rw [store_store]
  · rfl
  · rfl

theorem checksumCompute_eq_filled (hoffset : checksumOffset cp.hdrProto = some offset)
    (hkept : NoCarryLost (packetPieces pseudoAddr (setField p cp offset 0 0) cp)) :
    checksumCompute pseudoAddr p cp = filled p cp offset := by
  rw [checksumCompute_eq pseudoAddr p hoffset, packetChecksum_of_noCarryLost hoffset hkept]
  rfl

theorem checksumVerify_eq_true_iff (pseudoAddr : Nat) (p : Packet) (cp : ChecksumParameters) :
    checksumVerify pseudoAddr p cp = true ↔ packetChecksum pseudoAddr p cp = 0 :=
  beq_iff_eq

/-- The octets of the checksum that are not summed up are zero. -/
def FieldCounted (p : Packet) (cp : ChecksumParameters) (offset : Nat) : Prop :=
  let csum := octetsChecksum (setField p cp offset 0 0) cp
  (coveredLength p cp ≤ offset → csum / 2 ^ 8 = 0) ∧
    (coveredLength p cp ≤ offset + 1 → csum % 2 ^ 8 = 0)

theorem octetSum_octets (hn : n < 2 ^ 16) :
    octetSum false [UInt8.ofNat (n / 2 ^ 8), UInt8.ofNat n] = exchanged n := by
  simp only [octetSum, exchanged, UInt8.toNat_ofNat']
  omega

theorem unseen_eq_zero_iff {csum : Nat} (hcsum : csum < 2 ^ 16) (offset n : Nat) :
    unseen offset n (UInt8.ofNat (csum / 2 ^ 8)) (UInt8.ofNat csum) = 0 ↔
      (n ≤ offset → csum / 2 ^ 8 = 0) ∧ (n ≤ offset + 1 → csum % 2 ^ 8 = 0) := by
  simp only [unseen, UInt8.toNat_ofNat']
  split_ifs <;> omega

theorem unseen_le (offset n : Nat) (f₀ f₁ : UInt8) :
    unseen offset n f₀ f₁ ≤ octetSum false [f₀, f₁] := by
  simp only [unseen, octetSum]
  split_ifs <;> omega

/-- A sum that has been completed is one of the two zeros, and is the number zero if all of
what completes it is missing again. -/
theorem completed_iff {sum sum' u : Nat} (hsum : sum' + u = sum + missing sum)
    (hu : u ≤ missing sum) : sum' ≡ 0 [MOD 65535] ∧ sum' ≠ 0 ↔ u = 0 := by
  unfold Nat.ModEq
  unfold missing at hsum hu
  split_ifs at hsum hu <;> omega

section Right

variable {p : Packet} {cp : ChecksumParameters} {offset : Nat} (h : ChecksumPlaced p cp offset)
  (pseudoAddr' : Nat)

include h

theorem chainSum_filled :
    chainSum (packetPieces pseudoAddr' (filled p cp offset) cp) ≡ 0 [MOD 65535] ∧
        chainSum (packetPieces pseudoAddr' (filled p cp offset) cp) ≠ 0 ↔
      FieldCounted p cp offset := by
  have hlt := octetsChecksum_lt (setField p cp offset 0 0) cp
  have hoctets := octetSum_octets hlt
  have hmissing : exchanged (octetsChecksum (setField p cp offset 0 0) cp) =
      missing (chainSum (packetPieces 0 (setField p cp offset 0 0) cp)) := by
    rw [octetsChecksum_eq 0, exchanged_exchanged (missing_lt _)]
  rw [hmissing] at hoctets
  rw [FieldCounted, ← unseen_eq_zero_iff hlt]
  refine @completed_iff (chainSum (packetPieces 0 (setField p cp offset 0 0) cp)) _ _ ?_ ?_
  · rw [← hoctets]
    exact chainSum_setField h _ _ 0 pseudoAddr'
  · rw [← hoctets]
    exact unseen_le _ _ _ _

theorem checksumVerify_filled_iff
    (hkept : NoCarryLost (packetPieces pseudoAddr' (filled p cp offset) cp)) :
    checksumVerify pseudoAddr' (filled p cp offset) cp = true ↔ FieldCounted p cp offset := by
  rw [checksumVerify_eq_true_iff, packetChecksum_eq_pieces pseudoAddr' _ h.proto,
    csumFold_csumChain_of_noCarryLost hkept, piecesChecksum_eq_zero_iff,
    chainSum_filled h pseudoAddr']

omit h in
theorem fieldCounted_of_covered (hcovered : offset + 2 ≤ coveredLength p cp) :
    FieldCounted p cp offset :=
  ⟨fun hle => by omega, fun hle => by omega⟩

theorem noCarryLost_of_verify (hcounted : FieldCounted p cp offset)
    (hverify : checksumVerify pseudoAddr' (filled p cp offset) cp = true) :
    NoCarryLost (packetPieces pseudoAddr' (filled p cp offset) cp) := by
  have hlen := length_packetPieces pseudoAddr' (filled p cp offset) cp
  have hcount : (filled p cp offset).headers.length ≤ 20 := h.count
  rw [checksumVerify_eq_true_iff, packetChecksum_eq_pieces pseudoAddr' _ h.proto] at hverify
  exact noCarryLost_of_fold_eq_zero (by omega)
    ((chainSum_filled h pseudoAddr').mpr hcounted).1 hverify

end Right

/-! ### Which octets are summed up -/

/-- The IP header of a checksum, which may be the header itself. -/
def IpConsistent (p : Packet) (cp : ChecksumParameters) : Prop :=
  if cp.hdrProto = .ipv4 then LengthConsistent p cp.hdrIdx .ipv4
  else LengthConsistent p cp.ipIdx cp.ipVersion

/-- The headers between the IP header and the one with the checksum are together as long as
the same number of headers like the latter. -/
def SameLengthBetween (p : Packet) (cp : ChecksumParameters) : Prop :=
  cp.hdrProto ≠ .ipv4 →
    (cp.hdrIdx - (cp.ipIdx + 1)) * headerLen p cp.hdrIdx ≡ betweenLength p cp [MOD 2 ^ 16]

theorem sum_drop (p : Packet) (hi : i < p.headers.length) :
    ((p.headers.drop i).map PacketHeader.len).sum =
      headerLen p i + ((p.headers.drop (i + 1)).map PacketHeader.len).sum := by
  rw [drop_eq_getElem_cons hi, map_cons, sum_cons, headerLen_of_lt hi]

/-- The field is summed up if the length fields are consistent, and the headers in between
have the right length. -/
theorem covered_of_consistent (h : ChecksumPlaced p cp offset) (hcons : IpConsistent p cp)
    (hbetween : SameLengthBetween p cp) : offset + 2 ≤ coveredLength p cp := by
  have hroom := h.room
  unfold IpConsistent at hcons
  unfold coveredLength
  by_cases hip : cp.hdrProto = .ipv4
  · rw [if_pos hip] at hcons ⊢
    simp only [LengthConsistent, if_true] at hcons
    rw [hcons.1]
    exact hroom
  · rw [if_neg hip] at hcons ⊢
    rw [(payloadLength_eq_iff (h.ipIdx hip) hcons).mpr (hbetween hip), sum_drop p h.hdrIdx]
    omega

/-! ### The result -/

/-- If computing loses no carry and the lengths are right, a computed checksum passes the check
just if the sum with the Internet checksum in the field loses no carry either. If neither
loses one, it passes just if what is not summed up of this checksum is zero. Nothing
but the field is changed. -/
theorem checksumVerify_checksumCompute_iff {p : Packet} {cp : ChecksumParameters} {offset : Nat}
    (h : ChecksumPlaced p cp offset) (pseudoAddr pseudoAddr' : Nat) :
    (NoCarryLost (packetPieces pseudoAddr (setField p cp offset 0 0) cp) →
      (IpConsistent p cp → SameLengthBetween p cp →
        (checksumVerify pseudoAddr' (checksumCompute pseudoAddr p cp) cp = true ↔
          NoCarryLost (packetPieces pseudoAddr' (filled p cp offset) cp))) ∧
      (NoCarryLost (packetPieces pseudoAddr' (filled p cp offset) cp) →
        (checksumVerify pseudoAddr' (checksumCompute pseudoAddr p cp) cp = true ↔
          FieldCounted p cp offset))) ∧
    (∃ buf, checksumCompute pseudoAddr p cp = { p with buf := buf } ∧
      ∀ i, i ≠ headerStart p cp.hdrIdx + offset → i ≠ headerStart p cp.hdrIdx + offset + 1 →
        buf i = p.buf i) := by
  refine ⟨fun hkept => ?_, ?_⟩
  · rw [checksumCompute_eq_filled h.proto hkept]
    refine ⟨fun hcons hbetween => ?_, checksumVerify_filled_iff h pseudoAddr'⟩
    have hcounted := fieldCounted_of_covered (covered_of_consistent h hcons hbetween)
    exact ⟨noCarryLost_of_verify h pseudoAddr' hcounted,
      fun hfilled => (checksumVerify_filled_iff h pseudoAddr' hfilled).mpr hcounted⟩
  · refine ⟨_, checksumCompute_eq pseudoAddr p h.proto, fun i hfst hsnd => ?_⟩
    exact withField_buf_of_ne p _ _ hfst hsnd

def alignedOctets : List UInt8 :=
  [0x45, 0, 0, 32, 0, 1, 0, 0, 64, 17, 0, 0, 10, 0, 0, 1, 10, 0, 0, 2,
   0x30, 0x39, 0, 53, 0, 12, 0, 0, 1, 2, 3, 4]

def alignedPacket : Packet :=
  { buf := fun i => alignedOctets.getD i 0
    start := 0
    len := 32
    scratchLen := 0
    headers := [⟨.ipv4, 0, 20⟩, ⟨.udp, 20, 8⟩, ⟨.payload, 28, 4⟩] }

def alignedParameters : ChecksumParameters :=
  ⟨1, .udp, 0, .ipv4⟩

theorem alignedPacket_placed : ChecksumPlaced alignedPacket alignedParameters 6 where
  proto := rfl
  hdrIdx := by decide
  room := by decide
  ipIdx := fun _ => by decide
  ipLen := fun _ => by decide
  count := by decide
  apart := by decide

theorem alignedPacket_verified :
    checksumVerify 0 (checksumCompute 0 alignedPacket alignedParameters) alignedParameters =
      true := by
  have hcomputed : NoCarryLost (packetPieces 0 (setField alignedPacket alignedParameters 6 0 0)
      alignedParameters) := by decide +kernel
  obtain ⟨hiff, -⟩ := (checksumVerify_checksumCompute_iff alignedPacket_placed 0 0).1 hcomputed
  refine (hiff ⟨by decide, by decide⟩ fun _ => ?_).mpr (by decide +kernel)
  decide

/-- An IPv4 header behind an Ethernet header, where no address is a multiple of four. -/
def shiftedOctets : List UInt8 :=
  [0x45, 0, 0, 20, 245, 69, 0, 0, 64, 17, 0, 0, 10, 0, 157, 194, 192, 168, 202, 87]

def shiftedPacket : Packet :=
  { buf := fun i => shiftedOctets.getD (i - 14) 0
    start := 0
    len := 34
    scratchLen := 0
    headers := [⟨.eth, 0, 14⟩, ⟨.ipv4, 14, 20⟩] }

def shiftedParameters : ChecksumParameters :=
  ⟨1, .ipv4, 1, .ipv4⟩

theorem shiftedPacket_placed : ChecksumPlaced shiftedPacket shiftedParameters 10 where
  proto := rfl
  hdrIdx := by decide
  room := by decide
  ipIdx := fun hip => absurd rfl hip
  ipLen := fun hip => absurd rfl hip
  count := by decide
  apart := by decide

theorem tunnelPacket_placed : ChecksumPlaced tunnelPacket tunnelParameters 16 where
  proto := rfl
  hdrIdx := by decide
  room := by decide
  ipIdx := fun _ => by decide
  ipLen := fun _ => by decide
  count := by decide
  apart := by decide

/-- One packet loses a carry, and in the other the length does not reach the field. -/
theorem checksum_not_verified :
    (ChecksumPlaced shiftedPacket shiftedParameters 10 ∧
      IpConsistent shiftedPacket shiftedParameters ∧
      checksumVerify 0 (checksumCompute 0 shiftedPacket shiftedParameters) shiftedParameters =
        false) ∧
    (ChecksumPlaced tunnelPacket tunnelParameters 16 ∧
      IpConsistent tunnelPacket tunnelParameters ∧
      checksumVerify 0 (checksumCompute 0 tunnelPacket tunnelParameters) tunnelParameters =
        false) := by
  refine ⟨⟨shiftedPacket_placed, ⟨by decide, by decide⟩, by decide +kernel⟩,
    ⟨tunnelPacket_placed, ⟨by decide, by decide⟩, by decide +kernel⟩⟩

/-! ### UDP without a checksum -/

theorem number16_filled (p : Packet) (cp : ChecksumParameters) (offset : Nat) :
    number16 (filled p cp offset).buf (headerStart p cp.hdrIdx + offset) =
      octetsChecksum (setField p cp offset 0 0) cp := by
  have hlt := octetsChecksum_lt (setField p cp offset 0 0) cp
  rw [number16, filled, setField, withField_buf_fst, withField_buf_snd, UInt8.toNat_ofNat',
    UInt8.toNat_ofNat']
  omega

theorem setField_zero (h : number16 p.buf (headerStart p cp.hdrIdx + offset) = 0) :
    setField p cp offset 0 0 = p := by
  have hbuf : (setField p cp offset 0 0).buf = p.buf := by
    funext i
    unfold number16 at h
    by_cases hfst : i = headerStart p cp.hdrIdx + offset
    · rw [hfst, setField, withField_buf_fst]
      exact UInt8.toNat_inj.mp (by rw [UInt8.toNat_zero]; omega)
    by_cases hsnd : i = headerStart p cp.hdrIdx + offset + 1
    · rw [hsnd, setField, withField_buf_snd]
      exact UInt8.toNat_inj.mp (by rw [UInt8.toNat_zero]; omega)
    · exact withField_buf_of_ne p 0 0 hfst hsnd
  calc setField p cp offset 0 0 = { p with buf := (setField p cp offset 0 0).buf } := rfl
    _ = p := by rw [hbuf]

/-- Where no carry is lost: what is stored for a UDP header is zero just if this is the Internet
checksum of the packet with a cleared field. A packet without a checksum is accepted just
if zero would be stored in it. -/
theorem udp_zero_iff (pseudoAddr : Nat) {p : Packet} {cp : ChecksumParameters}
    (hproto : cp.hdrProto = .udp)
    (hkept : NoCarryLost (packetPieces pseudoAddr (setField p cp 6 0 0) cp)) :
    (number16 (checksumCompute pseudoAddr p cp).buf (headerStart p cp.hdrIdx + 6) ≠ 0 ↔
      octetsChecksum (setField p cp 6 0 0) cp ≠ 0) ∧
    (number16 p.buf (headerStart p cp.hdrIdx + 6) = 0 →
      (checksumVerify pseudoAddr p cp = true ↔ octetsChecksum (setField p cp 6 0 0) cp = 0) ∧
        setField p cp 6 0 0 = p) := by
  have hoffset : checksumOffset cp.hdrProto = some 6 := by rw [hproto]; rfl
  constructor
  · rw [checksumCompute_eq_filled hoffset hkept, number16_filled]
  · intro hzero
    have hsame := setField_zero hzero
    rw [hsame] at hkept ⊢
    rw [checksumVerify_eq_true_iff, packetChecksum_of_noCarryLost hoffset hkept]
    exact ⟨Iff.rfl, rfl⟩

def zeroSumPacket : Packet :=
  { alignedPacket with buf := fun i => if i = 30 then 0xba else if i = 31 then 0x63 else
      alignedOctets.getD i 0 }

/-- A packet for which another number is stored, and one without a checksum that is accepted. -/
theorem udp_zero_aligned :
    number16 (checksumCompute 0 alignedPacket alignedParameters).buf 26 ≠ 0 ∧
      number16 zeroSumPacket.buf 26 = 0 ∧
      checksumVerify 0 zeroSumPacket alignedParameters = true := by
  have hproto : alignedParameters.hdrProto = .udp := rfl
  have haligned := udp_zero_iff 0 (p := alignedPacket) hproto (by decide +kernel)
  have hzero := udp_zero_iff 0 (p := zeroSumPacket) hproto (by decide +kernel)
  exact ⟨haligned.1.mpr (by decide +kernel), by decide,
    (hzero.2 (by decide)).1.mpr (by decide +kernel)⟩

/-- Zero is stored, and a packet without a checksum is rejected. -/
theorem udp_zero_stored :
    IpConsistent zeroSumPacket alignedParameters ∧
      number16 (checksumCompute 0 zeroSumPacket alignedParameters).buf 26 = 0 ∧
      IpConsistent alignedPacket alignedParameters ∧ number16 alignedPacket.buf 26 = 0 ∧
      checksumVerify 0 alignedPacket alignedParameters = false :=
  ⟨⟨by decide, by decide⟩, by decide +kernel, ⟨by decide, by decide⟩, by decide, by decide +kernel⟩

end Dnt
