import Dnt.Theory.Oam.Traffic

/-!
# Telling Maintenance Packets Apart

The constructor of an action finds out where the mark of maintenance packets should
be, and `packet_is_oam` looks there. For Ethernet without an R-TAG it is the
Ethernet type in the VLAN tag. The constructor looks for the payload behind the last
header to find that tag, in a list that ends with the number of the payload. So the
action compares the first two octets of the packet instead.

## Main definitions

* `Marked`: The packet carries the mark of the stack it is laid out with.
* `MarkLocated`: The stack is not on Ethernet, or it has an R-TAG.
* `Recognises`: Actions on a stack tell its maintenance packets by the mark.

## Theorems

* `recognises_iff`: Marks are recognised just on the stacks on which they are located.
-/

namespace Dnt

/-- `ETH_P_CFM`, as it is on the wire. -/
def cfmType : List UInt8 :=
  [0x89, 0x02]

/-- The first four bits of a header are the mark. -/
def NibbleMarked (p : Packet) (idx : Nat) : Prop :=
  (p.buf (headerStart p idx)).toNat / 16 = 1

/-- The packet carries the mark of the stack it is laid out with. -/
def Marked (stack : List ProtocolID) (p : Packet) : Prop :=
  match stack with
  -- the fourth flag in front of the sequence number of the DetNet SID
  | [.ipv6] => (p.buf (headerStart p 0 + 36)).toNat % 2 = 1
  -- behind the label
  | [.mpls, .dcw] => NibbleMarked p 1
  | [.eth, _, .rtag] => NibbleMarked p 2
  -- the type in the VLAN tag
  | [.eth, _] => Memory.load p.buf (headerStart p 1 + 2) 2 = cfmType
  | _ => False

/-- Actions on a stack tell by the mark which packets are maintenance packets, and
every packet that a maintenance point builds there is one. -/
def Recognises (stack : List ProtocolID) : Prop :=
  (∀ p : Packet, stack <+: p.headers.map PacketHeader.type →
    (isOam (some stack) p = true ↔ Marked stack p)) ∧
  ∀ (env : SendContext) (mp : OamMaintenancePoint) (buf : Nat → UInt8) (req : OamRequest),
    mp.protostack = stack → isOam (some stack) (builtPacket env mp buf req).packet = true

/-- The constructor finds the place of the mark: the stack is not on Ethernet, or it has
an R-TAG. -/
def MarkLocated (stack : List ProtocolID) : Prop :=
  stack.head? = some .eth → .rtag ∈ stack

instance (stack : List ProtocolID) : Decidable (MarkLocated stack) :=
  inferInstanceAs (Decidable (_ → _))

/-! ## Marks in packets -/

variable {stack : List ProtocolID} {a : UInt8}

theorem oamNibble_iff : oamNibble a = true ↔ a.toNat / 16 = 1 := by
  have hall : ∀ a : UInt8, oamNibble a = decide (a.toNat / 16 = 1) :=
    octet_forall (by decide +kernel)
  rw [hall a, decide_eq_true_iff]

theorem oamNibble_mark : oamNibble 0x10 = true := by decide

theorem oamBit_iff : (a &&& 1 == 1) = true ↔ a.toNat % 2 = 1 := by
  have hall : ∀ a : UInt8, (a &&& 1 == 1) = decide (a.toNat % 2 = 1) :=
    octet_forall (by decide +kernel)
  rw [hall a, decide_eq_true_iff]

theorem isOam_iff_marked (hmem : stack ∈ oamPossibleProtostacks) (hlocated : MarkLocated stack)
    (p : Packet) : isOam (some stack) p = true ↔ Marked stack p := by
  simp only [oamPossibleProtostacks, List.mem_cons, List.not_mem_nil, or_false] at hmem
  rcases hmem with rfl | rfl | rfl | rfl | rfl | rfl
  · exact oamBit_iff
  · exact oamNibble_iff
  · exact oamNibble_iff
  · exact oamNibble_iff
  -- without an R-TAG there is no place for it
  all_goals exact absurd hlocated (by decide)

theorem isOam_noRtag_iff (hmem : stack ∈ oamPossibleProtostacks) (hlocated : ¬ MarkLocated stack)
    (p : Packet) :
    isOam (some stack) p = true ↔ Memory.load p.buf (headerStart p 0) 2 = cfmType := by
  have hload : Memory.load p.buf (headerStart p 0) 2 =
      [p.buf (headerStart p 0), p.buf (headerStart p 0 + 1)] := rfl
  rw [hload, cfmType, List.cons.injEq, List.cons.injEq]
  simp only [oamPossibleProtostacks, List.mem_cons, List.not_mem_nil, or_false] at hmem
  have hlook : isOam (some stack) p =
      (p.buf (headerStart p 0) == 0x89 && p.buf (headerStart p 0 + 1) == 0x02) := by
    rcases hmem with rfl | rfl | rfl | rfl | rfl | rfl
    · exact absurd (by decide) hlocated
    · exact absurd (by decide) hlocated
    · exact absurd (by decide) hlocated
    · exact absurd (by decide) hlocated
    · rfl
    · rfl
  rw [hlook, Bool.and_eq_true, beq_iff_eq, beq_iff_eq, eq_self, and_true]

/-! ## Packets of maintenance points -/

section Built

variable (env : SendContext) (mp : OamMaintenancePoint) (buf : Nat → UInt8) (req : OamRequest)

theorem isOam_built_pw (h : mp.encap = .pw) :
    isOam (some mp.protostack) (builtPacket env mp buf req).packet = true := by
  have hpacket : (builtPacket env mp buf req).packet = _ := requestPacket_pw env mp buf req h
  have hhead := head?_protostack mp
  rw [h] at hhead
  simp only [isOam, packetIsOam, hhead, hpacket]
  exact oamNibble_mark

theorem isOam_built_rtag (h : mp.hasRtag = true) :
    isOam (some mp.protostack) (builtPacket env mp buf req).packet = true := by
  obtain ⟨hencap, hindex⟩ := (hasRtag_iff mp).mp h
  have hpacket : (builtPacket env mp buf req).packet = _ :=
    requestPacket_rtag env mp buf req hencap h
  have hhead := head?_protostack mp
  rw [hencap] at hhead
  -- the R-TAG is the third header of both stacks that have one
  have htwo : ∀ stack ∈ oamPossibleProtostacks, (analyzeProtostack stack).rtagIndex ≠ 0 →
      (createActionElim (some stack)).indices.rtagIndex = 2 := by decide
  have hplace := htwo mp.protostack mp.protostack_mem hindex
  simp only [isOam, packetIsOam, hhead, hpacket, hplace, ne_eq, OfNat.ofNat_ne_zero,
    not_false_eq_true, if_true]
  exact oamNibble_mark

/-- A packet that a maintenance point has built is a maintenance packet, where the
constructor of the action finds the place of the mark. -/
theorem isOam_built (hlocated : MarkLocated mp.protostack) :
    isOam (some mp.protostack) (builtPacket env mp buf req).packet = true := by
  cases hencap : mp.encap with
  | srv6 => exact isOam_built_srv6 env mp buf req hencap
  | pw => exact isOam_built_pw env mp buf req hencap
  | tsn =>
    have hall : ∀ stack ∈ oamPossibleProtostacks, oamEncap stack = .tsn → MarkLocated stack →
        decide (stack.getD 2 .payload = .rtag) = true := by decide
    exact isOam_built_rtag env mp buf req
      (hall mp.protostack mp.protostack_mem hencap hlocated)

/-- Without an R-TAG it is one only if the address of the point begins like the type
that should be looked at. -/
theorem isOam_built_noRtag_iff (hlocated : ¬ MarkLocated mp.protostack) :
    isOam (some mp.protostack) (builtPacket env mp buf req).packet = true ↔
      Memory.load mp.address 0 2 = cfmType := by
  have hall : ∀ stack ∈ oamPossibleProtostacks, ¬ MarkLocated stack →
      oamEncap stack = .tsn ∧ decide (stack.getD 2 .payload = .rtag) = false := by decide
  obtain ⟨hencap, hrtag⟩ := hall mp.protostack mp.protostack_mem hlocated
  have hpacket : (builtPacket env mp buf req).packet = _ :=
    requestPacket_noRtag env mp buf req hencap hrtag
  rw [isOam_noRtag_iff mp.protostack_mem hlocated, hpacket]
  rfl

end Built

/-- Marks are found on all stacks but those on Ethernet that have no R-TAG. -/
theorem recognises_iff (stack : List ProtocolID) (hmem : stack ∈ oamPossibleProtostacks) :
    Recognises stack ↔ MarkLocated stack := by
  constructor
  · rintro ⟨-, hbuilt⟩
    by_contra hlocated
    -- a point whose address is all zero
    have hoam := hbuilt pingContext (pingPoint stack hmem) (fun _ => 0) pingRequest rfl
    have hzero := (isOam_built_noRtag_iff pingContext (pingPoint stack hmem) (fun _ => 0)
      pingRequest hlocated).mp hoam
    exact absurd hzero (show ¬ Memory.load (fun _ => (0 : UInt8)) 0 2 = cfmType by decide)
  · intro hlocated
    refine ⟨fun p _ => isOam_iff_marked hmem hlocated p, ?_⟩
    rintro env mp buf req rfl
    exact isOam_built env mp buf req hlocated

/-- With an R-TAG. -/
theorem recognises_rtag :
    [ProtocolID.eth, .cvlan, .rtag] ∈ oamPossibleProtostacks ∧
      Recognises [.eth, .cvlan, .rtag] :=
  ⟨by decide, (recognises_iff [.eth, .cvlan, .rtag] (by decide)).mpr (by decide)⟩

def vlanPing : Packet :=
  (builtPacket pingContext (pingPoint [.eth, .cvlan] (by decide)) (fun _ => 0) pingRequest).packet

def vlanData : Packet :=
  ⟨fun i => if i = 1024 then 0x89 else if i = 1025 then 0x02 else 0, 1024, 18, 0,
    [⟨.eth, 1024, 14⟩, ⟨.cvlan, 1038, 4⟩]⟩

/-- A ping on Ethernet with a VLAN tag has its mark and is not recognised. A data packet
for another address is taken for a maintenance packet. -/
theorem vlanPing_not_recognised :
    ([ProtocolID.eth, .cvlan] <+: vlanPing.headers.map PacketHeader.type ∧
      Marked [.eth, .cvlan] vlanPing ∧ isOam (some [.eth, .cvlan]) vlanPing = false) ∧
    [ProtocolID.eth, .cvlan] <+: vlanData.headers.map PacketHeader.type ∧
      ¬ Marked [.eth, .cvlan] vlanData ∧ isOam (some [.eth, .cvlan]) vlanData = true := by
  have hping : vlanPing = _ := requestPacket_noRtag pingContext
    (pingPoint [.eth, .cvlan] (by decide)) (fun _ => 0) pingRequest rfl rfl
  refine ⟨⟨?_, ?_, ?_⟩, ?_, ?_, ?_⟩
  · rw [hping]
    decide
  · rw [hping]
    rfl
  · have hnot : ¬ MarkLocated (pingPoint [.eth, .cvlan] (by decide)).protostack := by decide
    have hiff := isOam_built_noRtag_iff pingContext (pingPoint [.eth, .cvlan] (by decide))
      (fun _ => 0) pingRequest hnot
    exact Bool.eq_false_iff.mpr fun h => absurd (hiff.mp h) (by decide)
  · decide
  · exact show ¬ Memory.load vlanData.buf (headerStart vlanData 1 + 2) 2 = cfmType by decide
  · decide

end Dnt
