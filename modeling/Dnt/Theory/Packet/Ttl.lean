import Dnt.Core.ConfActions
import Dnt.Core.Ttl
import Dnt.Theory.Packet.Checksum

/-!
# Checksums after Reducing the Time to Live

The action adds 256 to the checksum of an IPv4 header, modulo 65536. This makes up
for the one that is taken off the time to live. But a time to live of zero stays as
it is, and for a checksum with a first octet of 255 the carry is not added back. The
check of a checksum may lose carries itself, before and after. Whether it does is told
by the octets of the header and its address.

The compiler inserts a reduction for the first header of a stream without its
checksum, unlike the one that a configuration can ask for.

## Main definitions

* `HeaderReduced`: One packet is the other with a smaller time to live and the checksum
  that the action writes.
* `reducedOctets`: The octets of a header after the action, from those before it.

## Theorems

* `headerReduced_execute`: The action changes two octets of an IPv4 header in this way.
* `octetSum_reduced`: What this does to the sum of the header's octets.
* `ttlreduce_verify_iff`: Where neither check loses a carry, a valid checksum stays valid just
  if the time to live was not zero and the first octet of the checksum not 255.
* `ttlreduce_auto_iff`: The two kinds of reductions do the same just if the header's protocol
  has no checksum.
-/

namespace Dnt

open Function

variable {hdr : ConfHeader}

open OnesComplement Memory

/-! ### Sums -/

/-- How much an octet of a header counts for. -/
def placeWeight (k : Nat) : Nat :=
  if k % 2 = 0 then 1 else 2 ^ 8

variable {cp : ChecksumParameters} {rest : List ConfHeader} {iph : Nat} {p q : Packet}
  {s : StageState}

theorem octetSum_load_succ (m : Nat → UInt8) (src n : Nat) :
    octetSum false (load m src (n + 1)) =
      octetSum false (load m src n) + (m (src + n)).toNat * placeWeight n := by
  rw [load_succ, (octetSum_snoc).1, length_load]
  rfl

theorem octetSum_load_update (m : Nat → UInt8) (src : Nat) {k n : Nat} (a : UInt8) (hk : k < n) :
    octetSum false (load (update m (src + k) a) src n) +
        (m (src + k)).toNat * placeWeight k =
      octetSum false (load m src n) + a.toNat * placeWeight k := by
  induction n with
  | zero => omega
  | succ n ih =>
    rw [octetSum_load_succ, octetSum_load_succ]
    by_cases hlast : k = n
    · -- the octets in front of it are the same
      have hload : load (update m (src + k) a) src n = load m src n := by
        refine load_congr _ _ _ _ fun j hj => ?_
        exact update_of_ne (by omega) _ _
      rw [hload, ← hlast, update_self]
      omega
    · have hsame : update m (src + k) a (src + n) = m (src + n) :=
        update_of_ne (by omega) _ _
      have hfront := ih (by omega)
      rw [hsame]
      omega

/-! ### The action -/

/-- The octets of a header with one taken off the time to live, unless it is zero, and one
added to the first octet of the checksum. -/
def reducedOctets (octets : List UInt8) : List UInt8 :=
  (octets.modify 8 fun ttl => if 0 < ttl then ttl - 1 else ttl).modify 10 (· + 1)

/-- The time to live and the checksum of an IPv4 header at `iph` are reduced, and nothing else
is changed. -/
structure HeaderReduced (p q : Packet) (iph : Nat) : Prop where
  ttl : (q.buf (iph + 8)).toNat = (p.buf (iph + 8)).toNat - 1
  csum : q.buf (iph + 10) = p.buf (iph + 10) + 1
  others : ∀ i, i ≠ iph + 8 → i ≠ iph + 10 → q.buf i = p.buf i
  rest : q = { p with buf := q.buf }

theorem ttlField_ipv4 : protocolGetFieldByType .ipv4 .ttl = some ⟨"ttl", 64, 8, .ttl⟩ := by
  decide

theorem checksumField_ipv4 :
    protocolGetFieldByType .ipv4 .checksum = some ⟨"checksum", 80, 16, .checksum⟩ := by
  decide

theorem create_ipv4 (hid : hdr.desc.id = .ipv4) (i : Nat) :
    TtlAction.create ⟨headerGetFieldOfType hdr i .ttl, headerGetFieldOfType hdr i .checksum⟩ =
      some ⟨⟨i, 64, 8⟩, ⟨i, 80, 16⟩, 256⟩ := by
  simp [TtlAction.create, headerGetFieldOfType, hid, ttlField_ipv4, checksumField_ipv4,
    newHeaderfield, createActionTtlreduce]

theorem reduced_csum (a b : UInt8) :
    UInt8.ofNat ((2 ^ 16 - 1 - sub16 (2 ^ 16 - 1 - (a.toNat * 2 ^ 8 + b.toNat)) 256) / 2 ^ 8) =
        a + 1 ∧
      UInt8.ofNat (2 ^ 16 - 1 - sub16 (2 ^ 16 - 1 - (a.toNat * 2 ^ 8 + b.toNat)) 256) = b := by
  have := a.toNat_lt
  have := b.toNat_lt
  refine ⟨UInt8.toNat_inj.mp ?_, UInt8.toNat_inj.mp ?_⟩
  · rw [UInt8.toNat_ofNat', UInt8.toNat_add, UInt8.toNat_one, sub16]
    omega
  · rw [UInt8.toNat_ofNat', sub16]
    omega

theorem reduceTtl_eq (field : HeaderField) (p : Packet) :
    ∃ a, reduceTtl field p = setDst field p 0 a ∧
      a.toNat = (p.buf (dstAddr field p 0)).toNat - 1 := by
  unfold reduceTtl
  generalize hold : p.buf (dstAddr field p 0) = old
  split_ifs with hpos
  · refine ⟨old - 1, rfl, ?_⟩
    have hone : (1 : UInt8) ≤ old := hpos
    rw [UInt8.toNat_sub_of_le _ _ hone, UInt8.toNat_one]
  · -- zero stays zero
    have hzero : old.toNat = 0 := Nat.le_zero.mp (Nat.not_lt.mp hpos)
    refine ⟨old, ?_, by omega⟩
    rw [setDst, ← hold, update_eq_self]

/-- The three octets that the action writes in an IPv4 header. -/
def reducedBuf (buf : Nat → UInt8) (iph : Nat) (a : UInt8) : Nat → UInt8 :=
  let buf₁ := update buf (iph + 8) a
  let buf₂ := update buf₁ (iph + 10) (buf (iph + 10) + 1)
  update buf₂ (iph + 11) (buf (iph + 11))

theorem execute_ipv4 (p : Packet) (i : Nat) :
    ∃ a : UInt8, a.toNat = (p.buf (headerStart p i + 8)).toNat - 1 ∧
      (actionTtlreduceExecute ⟨⟨i, 64, 8⟩, ⟨i, 80, 16⟩, 256⟩ p).1 =
        { p with buf := reducedBuf p.buf (headerStart p i) a } := by
  obtain ⟨a, ha, httl⟩ := reduceTtl_eq ⟨i, 64, 8⟩ p
  have h10 : update p.buf (headerStart p i + 8) a (headerStart p i + 10) =
      p.buf (headerStart p i + 10) := update_of_ne (by omega) _ _
  have h11 : update p.buf (headerStart p i + 8) a (headerStart p i + 11) =
      p.buf (headerStart p i + 11) := update_of_ne (by omega) _ _
  obtain ⟨hfirst, hsecond⟩ :=
    reduced_csum (p.buf (headerStart p i + 10)) (p.buf (headerStart p i + 11))
  have h8 : dstAddr ⟨i, 64, 8⟩ p 0 = headerStart p i + 8 := by simp [dstAddr]
  rw [h8] at httl
  refine ⟨a, httl, ?_⟩
  simp only [actionTtlreduceExecute, if_true, reduceCsum, ha, setDst, dstAddr, headerStart,
    number16, Nat.reduceDiv, Nat.add_zero, Nat.add_assoc, Nat.reduceAdd] at h10 h11 ⊢
  simp only [headerStart] at hfirst hsecond
  rw [h10, h11, hfirst, hsecond]
  rfl

theorem headerReduced_execute (p : Packet) (i : Nat) :
    HeaderReduced p (actionTtlreduceExecute ⟨⟨i, 64, 8⟩, ⟨i, 80, 16⟩, 256⟩ p).1
      (headerStart p i) := by
  obtain ⟨a, httl, heq⟩ := execute_ipv4 p i
  rw [heq]
  refine ⟨?_, ?_, ?_, rfl⟩
  · simp only [reducedBuf]
    rw [update_of_ne (by omega), update_of_ne (by omega), update_self, httl]
  · simp only [reducedBuf]
    rw [update_of_ne (by omega), update_self]
  · intro j h8 h10
    simp only [reducedBuf]
    by_cases h11 : j = headerStart p i + 11
    · rw [h11, update_self]
    · rw [update_of_ne h11, update_of_ne h10, update_of_ne h8]

/-! ### The checksum afterwards -/

section Reduced

variable {p q : Packet} {iph : Nat} (h : HeaderReduced p q iph)

include h

theorem ipv4Length_reduced : ipv4Length q iph = ipv4Length p iph := by
  rw [ipv4Length, ipv4Length, h.others iph (by omega) (by omega)]

theorem ipv4Octets_reduced_short (hshort : ipv4Length p iph < 12) :
    ipv4Octets q iph = ipv4Octets p iph := by
  have hlen : ipv4Length p iph ≤ 8 := by
    unfold ipv4Length at hshort ⊢
    omega
  rw [ipv4Octets, ipv4Length_reduced h]
  exact load_congr _ _ _ _ fun k hk => h.others _ (by omega) (by omega)

theorem ttl_reduced :
    q.buf (iph + 8) = if 0 < p.buf (iph + 8) then p.buf (iph + 8) - 1 else p.buf (iph + 8) := by
  have httl := h.ttl
  refine UInt8.toNat_inj.mp ?_
  split_ifs with hpos
  · rw [httl, UInt8.toNat_sub_of_le _ _ hpos, UInt8.toNat_one]
  · have hzero : (p.buf (iph + 8)).toNat = 0 := Nat.le_zero.mp (Nat.not_lt.mp hpos)
    omega

theorem ipv4Octets_reduced : ipv4Octets q iph = reducedOctets (ipv4Octets p iph) := by
  refine List.ext_getElem ?_ fun k hk hk' => ?_
  · simp [reducedOctets, ipv4Octets, length_load, ipv4Length_reduced h]
  · simp only [reducedOctets, ipv4Octets, List.getElem_modify, load, List.getElem_map,
      List.getElem_range]
    by_cases h8 : 8 = k
    · rw [← h8, if_pos rfl, if_neg (by decide), ttl_reduced h]
    by_cases h10 : 10 = k
    · rw [← h10, if_pos rfl, if_neg (by decide), h.csum]
    · rw [if_neg h8, if_neg h10, h.others _ (by omega) (by omega)]

/-- One is taken off for the time to live, and one is added for the checksum, which may
wrap around. -/
theorem octetSum_reduced (hlong : 12 ≤ ipv4Length p iph) :
    octetSum false (ipv4Octets q iph) + 256 * (if p.buf (iph + 10) = 255 then 1 else 0) =
      octetSum false (ipv4Octets p iph) + (if p.buf (iph + 8) = 0 then 1 else 0) := by
  -- the buffer is that of the packet with two octets changed
  have hbuf : q.buf = update (update p.buf (iph + 8) (q.buf (iph + 8)))
      (iph + 10) (q.buf (iph + 10)) := by
    funext j
    by_cases h10 : j = iph + 10
    · rw [h10, update_self]
    · rw [update_of_ne h10]
      by_cases h8 : j = iph + 8
      · rw [h8, update_self]
      · rw [update_of_ne h8, h.others j h8 h10]
  have hfst := octetSum_load_update p.buf iph (q.buf (iph + 8)) (by omega : 8 < ipv4Length p iph)
  have hsnd := octetSum_load_update (update p.buf (iph + 8) (q.buf (iph + 8))) iph
    (q.buf (iph + 10)) (by omega : 10 < ipv4Length p iph)
  rw [← hbuf, update_of_ne (by omega)] at hsnd
  have hone (k : Nat) (hk : k % 2 = 0) : placeWeight k = 1 := if_pos hk
  rw [hone 8 rfl, h.ttl] at hfst
  rw [hone 10 rfl, h.csum, UInt8.toNat_add, UInt8.toNat_one] at hsnd
  rw [ipv4Octets, ipv4Octets, ipv4Length_reduced h]
  have hcsum : p.buf (iph + 10) = 255 ↔ (p.buf (iph + 10)).toNat = 255 :=
    (UInt8.toNat_inj (b := 255)).symm
  have httl : p.buf (iph + 8) = 0 ↔ (p.buf (iph + 8)).toNat = 0 :=
    (UInt8.toNat_inj (b := 0)).symm
  have hlt := (p.buf (iph + 10)).toNat_lt
  simp only [hcsum, httl]
  split_ifs <;> omega

end Reduced

theorem checksumVerify_ipv4 (pseudoAddr : Nat) (p : Packet) (hproto : cp.hdrProto = .ipv4) :
    checksumVerify pseudoAddr p cp = true ↔ csumFold (csumChain
      [(headerStart p cp.hdrIdx, ipv4Octets p (headerStart p cp.hdrIdx))] 0) = 0 := by
  have hoffset : checksumOffset cp.hdrProto = some 10 := by rw [hproto]; rfl
  rw [checksumVerify_eq_true_iff, packetChecksum_eq_pieces pseudoAddr p hoffset, packetPieces,
    if_pos hproto]

/-- Where no carry is lost, the check is one of the octets. -/
theorem fold_ipv4_eq_zero_iff (hkept : NoCarryLost [(iph, ipv4Octets p iph)]) :
    csumFold (csumChain [(iph, ipv4Octets p iph)] 0) = 0 ↔
      octetSum false (ipv4Octets p iph) ≡ 0 [MOD 65535] ∧
        octetSum false (ipv4Octets p iph) ≠ 0 := by
  rw [csumFold_csumChain_of_noCarryLost hkept, piecesChecksum_eq_zero_iff]
  rfl

theorem noCarryLost_ipv4 (haligned : iph % 4 = 0) (p : Packet) :
    NoCarryLost [(iph, ipv4Octets p iph)] := by
  refine noCarryLost_of_aligned ((List.forall_mem_singleton).mpr ⟨haligned, ?_⟩)
  rw [ipv4Octets, length_load, ipv4Length]
  omega

theorem fold_reduced_iff (hreduced : HeaderReduced p q iph)
    (hbefore : NoCarryLost [(iph, ipv4Octets p iph)])
    (hverify : csumFold (csumChain [(iph, ipv4Octets p iph)] 0) = 0)
    (hafter : NoCarryLost [(iph, ipv4Octets q iph)]) :
    csumFold (csumChain [(iph, ipv4Octets q iph)] 0) = 0 ↔
      (12 ≤ ipv4Length p iph → p.buf (iph + 8) ≠ 0 ∧ p.buf (iph + 10) ≠ 255) := by
  rw [fold_ipv4_eq_zero_iff hbefore] at hverify
  rw [fold_ipv4_eq_zero_iff hafter]
  by_cases hlong : 12 ≤ ipv4Length p iph
  · have hsum := octetSum_reduced hreduced hlong
    rw [forall_prop_of_true hlong]
    unfold Nat.ModEq at hverify ⊢
    -- the sum moves by one, by 256 or by 255, none of which is a multiple of 65535
    by_cases httl : p.buf (iph + 8) = 0 <;> by_cases hcsum : p.buf (iph + 10) = 255 <;>
      simp only [httl, hcsum, if_true, if_false, ne_eq, not_true, not_false_eq_true, and_self,
        and_true, and_false, iff_true, iff_false] at hsum ⊢ <;> omega
  · rw [ipv4Octets_reduced_short hreduced (Nat.lt_of_not_le hlong)]
    exact iff_of_true hverify fun h => absurd h hlong

/-- The sum is the same as before, so lost carries show. -/
theorem noCarryLost_reduced (hreduced : HeaderReduced p q iph)
    (hbefore : NoCarryLost [(iph, ipv4Octets p iph)])
    (hverify : csumFold (csumChain [(iph, ipv4Octets p iph)] 0) = 0)
    (httl : p.buf (iph + 8) ≠ 0) (hcsum : p.buf (iph + 10) ≠ 255)
    (hverify' : csumFold (csumChain [(iph, ipv4Octets q iph)] 0) = 0) :
    NoCarryLost [(iph, ipv4Octets q iph)] := by
  by_cases hlong : 12 ≤ ipv4Length p iph
  · have hsum := octetSum_reduced hreduced hlong
    rw [if_neg httl, if_neg hcsum, Nat.mul_zero, Nat.add_zero, Nat.add_zero] at hsum
    refine noCarryLost_of_fold_eq_zero ?_ ?_ hverify'
    · rw [List.length_singleton]
      decide
    · rw [chainSum_cons, hsum]
      exact ((fold_ipv4_eq_zero_iff hbefore).mp hverify).1
  · rw [ipv4Octets_reduced_short hreduced (Nat.lt_of_not_le hlong)]
    exact hbefore

/-- Reducing the time to live of an IPv4 header with a valid checksum: only the two octets
change. Let the octets of the header lose no carry at this address. If the reduced ones
lose none either, the checksum stays valid just if the time to live was not zero and the
first octet of the checksum not 255, or the header is too short for both. If these are
so, it stays valid just if the reduced octets lose no carry. At a multiple of four no
carries are lost. -/
theorem ttlreduce_verify_iff (pseudoAddr : Nat) (p : Packet) {cp : ChecksumParameters}
    {hdr : ConfHeader} {td : TtlData} (hproto : cp.hdrProto = .ipv4)
    (hid : hdr.desc.id = .ipv4)
    (htd : TtlAction.create ⟨headerGetFieldOfType hdr cp.hdrIdx .ttl,
      headerGetFieldOfType hdr cp.hdrIdx .checksum⟩ = some td)
    (hverify : checksumVerify pseudoAddr p cp = true) :
    let iph := headerStart p cp.hdrIdx
    let q := (actionTtlreduceExecute td p).1
    HeaderReduced p q iph ∧
      (NoCarryLost [(iph, ipv4Octets p iph)] →
        (NoCarryLost [(iph, reducedOctets (ipv4Octets p iph))] →
          (checksumVerify pseudoAddr q cp = true ↔
            (12 ≤ ipv4Length p iph → p.buf (iph + 8) ≠ 0 ∧ p.buf (iph + 10) ≠ 255))) ∧
        (p.buf (iph + 8) ≠ 0 → p.buf (iph + 10) ≠ 255 →
          (checksumVerify pseudoAddr q cp = true ↔
            NoCarryLost [(iph, reducedOctets (ipv4Octets p iph))]))) ∧
      (iph % 4 = 0 → NoCarryLost [(iph, ipv4Octets p iph)] ∧
        NoCarryLost [(iph, reducedOctets (ipv4Octets p iph))]) := by
  rw [create_ipv4 hid, Option.some.injEq] at htd
  subst htd
  intro iph q
  have hreduced : HeaderReduced p q iph := headerReduced_execute p cp.hdrIdx
  have hstart : headerStart q cp.hdrIdx = iph := by
    rw [hreduced.rest]
    rfl
  rw [checksumVerify_ipv4 pseudoAddr p hproto] at hverify
  rw [checksumVerify_ipv4 pseudoAddr q hproto, hstart, ← ipv4Octets_reduced hreduced]
  refine ⟨hreduced, fun hbefore => ⟨fold_reduced_iff hreduced hbefore hverify, ?_⟩,
    fun haligned => ⟨noCarryLost_ipv4 haligned p, noCarryLost_ipv4 haligned q⟩⟩
  intro httl hcsum
  exact ⟨noCarryLost_reduced hreduced hbefore hverify httl hcsum,
    fun hafter => (fold_reduced_iff hreduced hbefore hverify hafter).mpr fun _ => ⟨httl, hcsum⟩⟩

def ipv4Packet (octets : List UInt8) : Packet :=
  ⟨fun i => octets.getD i 0, 0, octets.length, 0, [⟨.ipv4, 0, 20⟩]⟩

def ipv4Header (ttl id₀ id₁ csum₀ csum₁ : UInt8) : List UInt8 :=
  [0x45, 0, 0, 0x20, id₀, id₁, 0, 0, ttl, 0x11, csum₀, csum₁, 10, 0, 0, 1, 10, 0, 0, 2]

def ipv4Parameters : ChecksumParameters :=
  ⟨0, .ipv4, 0, .ipv4⟩

def ipv4Reduce : TtlData :=
  ⟨⟨0, 64, 8⟩, ⟨0, 80, 16⟩, 256⟩

theorem ttlreduce_verified :
    checksumVerify 0 (ipv4Packet (ipv4Header 64 0 1 0x66 0xca)) ipv4Parameters = true ∧
      checksumVerify 0 (actionTtlreduceExecute ipv4Reduce
        (ipv4Packet (ipv4Header 64 0 1 0x66 0xca))).1 ipv4Parameters = true := by
  have hverify : checksumVerify 0 (ipv4Packet (ipv4Header 64 0 1 0x66 0xca)) ipv4Parameters =
      true := by decide +kernel
  have hid : (ConfHeader.mk 0 0 ⟨"ip", .ipv4, []⟩).desc.id = .ipv4 := rfl
  have hproto : ipv4Parameters.hdrProto = .ipv4 := rfl
  obtain ⟨-, hiff, hkept⟩ := ttlreduce_verify_iff 0 _ hproto hid (create_ipv4 hid 0) hverify
  obtain ⟨hbefore, hafter⟩ := hkept rfl
  exact ⟨hverify, ((hiff hbefore).1 hafter).mpr fun _ => ⟨by decide, by decide⟩⟩

/-- Checksums that become invalid: one wraps around, and the other is of a header with a time
to live of zero. -/
theorem ttlreduce_not_verified :
    (checksumVerify 0 (ipv4Packet (ipv4Header 64 0x67 0xb8 0xff 0x12)) ipv4Parameters = true ∧
      checksumVerify 0 (actionTtlreduceExecute ipv4Reduce
        (ipv4Packet (ipv4Header 64 0x67 0xb8 0xff 0x12))).1 ipv4Parameters = false) ∧
    (checksumVerify 0 (ipv4Packet (ipv4Header 0 0 1 0xa6 0xca)) ipv4Parameters = true ∧
      checksumVerify 0 (actionTtlreduceExecute ipv4Reduce
        (ipv4Packet (ipv4Header 0 0 1 0xa6 0xca))).1 ipv4Parameters = false) := by
  decide +kernel

/-! ### The reduction that is inserted -/

theorem eq_ipv4_of_both {id : ProtocolID} (httl : (protocolGetFieldByType id .ttl).isSome = true)
    (hcsum : protocolGetFieldByType id .checksum ≠ none) : id = .ipv4 := by
  cases id with
  | ipv4 => rfl
  | mpls | ipv6 => exact absurd (by decide) hcsum
  | _ => exact absurd httl (by decide)

theorem tokenTtlreduce_front {a : ConfAction} {d : TtlAction} (hheaders : s.headers = hdr :: rest)
    (h : tokenTtlreduce s a ⟨none, none⟩ hdr.desc.name = .ok d) :
    d = ⟨headerGetFieldOfType hdr 0 .ttl, headerGetFieldOfType hdr 0 .checksum⟩ := by
  obtain ⟨_, _, hname⟩ := bind_eq_ok.mp h
  obtain ⟨found, hfound, hfields⟩ := bind_eq_ok.mp hname
  obtain ⟨field, hfield, hresult⟩ := bind_eq_ok.mp hfields
  cases hresult
  have hfront : hdr = found := by
    simp only [tokenHeader, findHeader, hheaders, headerListFindByName, if_true] at hfound
    split_ifs at hfound
    exact Except.ok.inj hfound
  have hindex : headerIndex s.headers found = 0 := by
    rw [headerIndex, hheaders, List.findIdx_cons, hfront, decide_eq_true rfl]
    rfl
  rw [orThrow_eq_ok, hindex] at hfield
  rw [hindex, hfront, hfield]

theorem processStage_ttlreduce {env : CompileEnv} {sub : SubCompiler} {s' : StageState}
    {stage : List Char} (hheaders : s.headers = hdr :: rest)
    (hwords : words stage = ["ttlreduce", hdr.desc.name])
    (h : processStage env sub s stage = .ok s') :
    s'.actions = ⟨String.ofList stage, false, .ttlreduce ⟨headerGetFieldOfType hdr 0 .ttl,
      headerGetFieldOfType hdr 0 .checksum⟩⟩ :: s.actions := by
  have hkeyword : keywords.lookup "ttlreduce" = some (.ttlreduce ⟨none, none⟩) := rfl
  unfold processStage at h
  by_cases hfinal : s.hadFinal = true
  · rw [if_pos hfinal] at h
    cases h
  rw [if_neg hfinal, foreachTokens, hwords] at h
  obtain ⟨s₃, htokens, hwhole⟩ := bind_eq_ok.mp h
  obtain ⟨s₁, hfirst, htoken⟩ := bind_eq_ok.mp htokens
  obtain ⟨s₂, hsecond, hnone⟩ := bind_eq_ok.mp htoken
  simp only [processToken, blankConfaction, tokenUndef, hkeyword] at hfirst
  cases hfirst
  obtain ⟨d, hd, hset⟩ := bind_eq_ok.mp hsecond
  have hfields := tokenTtlreduce_front hheaders hd
  cases hset
  cases hnone
  -- the whole action
  obtain ⟨_, _, hdone⟩ := bind_eq_ok.mp hwhole
  cases hdone
  rw [← hfields]
  rfl

theorem execute_ne_of_csum (p : Packet) {i : Nat} (hi : i ≠ 2 ^ 32 - 1) :
    actionTtlreduceExecute ⟨⟨i, 64, 8⟩, ⟨2 ^ 32 - 1, 0, 0⟩, 0⟩ p ≠
      actionTtlreduceExecute ⟨⟨i, 64, 8⟩, ⟨i, 80, 16⟩, 256⟩ p := by
  intro heq
  obtain ⟨a, ha, -⟩ := reduceTtl_eq ⟨i, 64, 8⟩ p
  have hreduced := (headerReduced_execute p i).csum
  have hkept : (actionTtlreduceExecute ⟨⟨i, 64, 8⟩, ⟨2 ^ 32 - 1, 0, 0⟩, 0⟩ p).1.buf
      (headerStart p i + 10) = p.buf (headerStart p i + 10) := by
    simp only [actionTtlreduceExecute, if_neg hi.symm, ha, setDst, dstAddr]
    exact update_of_ne (by omega) _ _
  rw [heq, hreduced] at hkept
  have hoctet := congrArg UInt8.toNat hkept
  rw [UInt8.toNat_add, UInt8.toNat_one] at hoctet
  have hlt := (p.buf (headerStart p i + 10)).toNat_lt
  omega

/-- The reduction that the compiler inserts for the first header, and the one that is asked
for, do the same to a packet just if the header's protocol has no checksum. -/
theorem ttlreduce_auto_iff {env : CompileEnv} {sub : SubCompiler} {stream : String}
    {first : HeaderDescriptor} {rest : List HeaderDescriptor} {stage : List Char} {s' : StageState}
    (httl : (protocolGetFieldByType first.id .ttl).isSome = true)
    (hwords : words stage = ["ttlreduce", first.name])
    (hstage : processStage env sub (initialState stream (first :: rest) first) stage = .ok s') :
    ∃ auto explicit : TtlAction, ∃ td td' : TtlData,
      (initialState stream (first :: rest) first).actions =
        [⟨"automatic TTL reduce on " ++ first.name, true, .ttlreduce auto⟩] ∧
      s'.actions = ⟨String.ofList stage, false, .ttlreduce explicit⟩ ::
        (initialState stream (first :: rest) first).actions ∧
      auto.create = some td ∧ explicit.create = some td' ∧
      ∀ p, actionTtlreduceExecute td p = actionTtlreduceExecute td' p ↔
        protocolGetFieldByType first.id .checksum = none := by
  obtain ⟨f, hf⟩ := Option.isSome_iff_exists.mp httl
  have hfield : headerGetFieldOfType ⟨0, 0, first⟩ 0 .ttl =
      some (newHeaderfield 0 ⟨0, 0, first⟩ f) := by
    rw [headerGetFieldOfType, hf]
    rfl
  have hauto : (initialState stream (first :: rest) first).actions =
      [⟨"automatic TTL reduce on " ++ first.name, true,
        .ttlreduce ⟨headerGetFieldOfType ⟨0, 0, first⟩ 0 .ttl, none⟩⟩] := by
    rw [initialState, hfield]
  have hheaders : (initialState stream (first :: rest) first).headers =
      ⟨0, 0, first⟩ :: tagHeaders rest 1 := by
    rw [initialState, hfield]
    rfl
  have hcreate (csum : Option FieldRef) :
      TtlAction.create ⟨headerGetFieldOfType ⟨0, 0, first⟩ 0 .ttl, csum⟩ =
        some (createActionTtlreduce ⟨0, f.bitoffset, f.bitcount⟩ (csum.map FieldRef.field)) := by
    rw [hfield]
    rfl
  refine ⟨_, _, _, _, hauto, processStage_ttlreduce hheaders hwords hstage, hcreate none,
    hcreate _, fun p => ⟨fun hsame => ?_, fun hnone => ?_⟩⟩
  · by_contra hcsum
    have hid := eq_ipv4_of_both httl hcsum
    rw [hid, ttlField_ipv4, Option.some.injEq] at hf
    rw [← hf, headerGetFieldOfType, hid, checksumField_ipv4] at hsame
    exact execute_ne_of_csum p (by decide) hsame
  · rw [headerGetFieldOfType, hnone]
    rfl

def emptyEnv : CompileEnv where
  iface := fun _ => none
  object := fun _ => none
  streamsSec := fun _ => none
  readConstant := fun _ _ _ _ => none
  scanDelay := fun _ => none
  scanLevel := fun _ => none

/-- Both are the same for a stream of MPLS packets. -/
theorem ttlreduce_auto_mpls :
    ∃ (s' : StageState) (auto explicit : TtlAction) (td td' : TtlData),
      processStage emptyEnv none (initialState "s" [⟨"mpls", .mpls, []⟩] ⟨"mpls", .mpls, []⟩)
        "ttlreduce mpls".toList = .ok s' ∧
      (initialState "s" [⟨"mpls", .mpls, []⟩] ⟨"mpls", .mpls, []⟩).actions =
        [⟨"automatic TTL reduce on " ++ "mpls", true, .ttlreduce auto⟩] ∧
      auto.create = some td ∧ explicit.create = some td' ∧
      ∀ p, actionTtlreduceExecute td p = actionTtlreduceExecute td' p := by
  obtain ⟨s', hs'⟩ : ∃ s', processStage emptyEnv none (initialState "s" [⟨"mpls", .mpls, []⟩]
      ⟨"mpls", .mpls, []⟩) "ttlreduce mpls".toList = .ok s' := ⟨_, rfl⟩
  have httl : (protocolGetFieldByType (HeaderDescriptor.mk "mpls" .mpls []).id .ttl).isSome =
      true := by decide
  obtain ⟨auto, explicit, td, td', hauto, _, htd, htd', hsame⟩ :=
    ttlreduce_auto_iff httl (by decide) hs'
  exact ⟨s', auto, explicit, td, td', hs', hauto, htd, htd', fun p => (hsame p).mpr (by decide)⟩

/-- A valid IPv4 header. It stays valid if a configuration asks for the reduction, and becomes
invalid by the reduction that is inserted. -/
theorem ttlreduce_auto_not_verified :
    ∃ auto : TtlAction, (initialState "s" [⟨"ip", .ipv4, []⟩] ⟨"ip", .ipv4, []⟩).actions =
        [⟨"automatic TTL reduce on " ++ "ip", true, .ttlreduce auto⟩] ∧
      auto.create = some ⟨⟨0, 64, 8⟩, ⟨2 ^ 32 - 1, 0, 0⟩, 0⟩ ∧
      checksumVerify 0 (ipv4Packet (ipv4Header 64 0 1 0x66 0xca)) ipv4Parameters = true ∧
      checksumVerify 0 (actionTtlreduceExecute ipv4Reduce
        (ipv4Packet (ipv4Header 64 0 1 0x66 0xca))).1 ipv4Parameters = true ∧
      checksumVerify 0 (actionTtlreduceExecute ⟨⟨0, 64, 8⟩, ⟨2 ^ 32 - 1, 0, 0⟩, 0⟩
        (ipv4Packet (ipv4Header 64 0 1 0x66 0xca))).1 ipv4Parameters = false := by
  refine ⟨_, rfl, rfl, ?_⟩
  decide +kernel

end Dnt
