import Dnt.Core.Elim
import Dnt.Core.Pof
import Dnt.Theory.Oam.RoundTrip

/-!
# Maintenance Packets Next to Data

An eliminate action is to give packets of the maintenance layer to recoveries of
their own, and a packet ordering function is to let them pass. Both look at the
sequence word of the packet, each at another bit.

## Main definitions

* `ElimMarked`: The mark of a packet is where an eliminate action looks for it.
* `ElimUndisturbed`, `PofUndisturbed`: The data is treated as if it came alone.

## Theorems

* `oamTraffic_undisturbed_iff`: Data is undisturbed just if every maintenance packet has its
  mark.
* `marked_readseq`: A packet that was read by its own sequence number has the first mark, and
  the second but on SRv6.
* `marked_built`: A packet that a maintenance point has built has both in a pseudowire and
  with an R-TAG, and none otherwise.
-/

namespace Dnt

open Mealy

variable {p : OamPacket}

/-! ## The eliminate action -/

variable {ι : Type*} (protostack : Option (List ProtocolID))

/-- A packet of the maintenance layer, for an action on the given stack. -/
def isOam (p : Packet) : Bool :=
  packetIsOam p protostack (createActionElim protostack).indices

/-- An event that has nothing to do with the maintenance layer, apart from the time
that passes there. -/
def ElimEvent.isData : ElimEvent → Bool
  | .packet p _ => !isOam protostack p.packet
  | _ => true

/-- The packet is given to the recovery of a session, and the data recovery does not
change. -/
def HandedOver (ed : ElimData) (s : ElimState) : ElimEvent → Prop
  | .packet p launched =>
    (∃ session seq, elimRoute ed p = .oamRecovery session seq) ∧
      (elimExecute ed s p launched).1.rcvy = s.rcvy
  | _ => True

/-- Maintenance packets only get to recoveries of their own. The data recovery
makes the same decisions and has the same states without them. -/
def ElimUndisturbed (s : ElimState) (es : List ElimEvent) : Prop :=
  Undisturbed (elimStep (createActionElim protostack)) (ElimEvent.isData protostack)
    ElimState.rcvy (HandedOver (createActionElim protostack)) s es

/-- The mark of a maintenance packet is where an eliminate action looks for it, and
the packet can be read. -/
def ElimMarked (p : OamPacket) : Prop :=
  packetIsLinear p.packet = true ∧
    match protostack with
    | none => False
    | some stack =>
      match stack.head? with
      | some .eth => (analyzeProtostack stack).rtagIndex ≠ 0
      | some .mpls => seqIsOam p.sequence = true
      | some .ipv6 => p.sequence.testBit 24 = true
      | _ => False

open List

theorem routeFound_oam_iff {p : Packet} {oam : Bool} {found : String × UInt8} :
    (∃ session seq, routeFound p oam found = .oamRecovery session seq) ↔
      packetIsLinear p = true ∧ oam = true := by
  unfold routeFound
  cases oam with
  | false => simp only [if_true, reduceCtorEq, exists_const, Bool.false_eq_true, and_false]
  | true =>
    split_ifs <;> simp_all

/-- A maintenance packet gets to a recovery of its own exactly if its mark is where
the action looks for it. -/
theorem elimRoute_oam_iff {protostack : Option (List ProtocolID)}
    (hoam : isOam protostack p.packet = true) :
    (∃ session seq, elimRoute (createActionElim protostack) p = .oamRecovery session seq) ↔
      ElimMarked protostack p := by
  cases protostack with
  | none => cases hoam
  | some stack =>
    cases hhead : stack.head? with
    | none =>
      simp only [isOam, packetIsOam, hhead, Bool.false_eq_true] at hoam
    | some id =>
      cases id with
      | eth =>
        have hed : createActionElim (some stack) =
            ⟨some stack, analyzeProtostack stack⟩ := rfl
        by_cases hrtag : (analyzeProtostack stack).rtagIndex = 0
        · simp [elimRoute, ElimMarked, hed, hhead, hrtag]
        · -- the mark of an R-TAG is the one that made it a maintenance packet
          simp only [isOam, packetIsOam, hed, hhead, ne_eq, hrtag, not_false_eq_true,
            if_true] at hoam
          simp [elimRoute, ElimMarked, hed, hhead, hrtag, routeFound_oam_iff, hoam]
      | mpls | ipv6 =>
        simp only [elimRoute, createActionElim, hhead, ElimMarked]
        exact routeFound_oam_iff
      | _ => simp only [isOam, packetIsOam, hhead, Bool.false_eq_true] at hoam

theorem rcvy_elimExecute_of_oam {ed : ElimData} (s : ElimState) (launched : Bool) {session : String}
    {seq : UInt8} (h : elimRoute ed p = .oamRecovery session seq) :
    (elimExecute ed s p launched).1.rcvy = s.rcvy := by
  simp only [elimExecute, h]

theorem handedOver_iff {protostack : Option (List ProtocolID)} (s : ElimState) (launched : Bool)
    (hoam : isOam protostack p.packet = true) :
    HandedOver (createActionElim protostack) s (.packet p launched) ↔ ElimMarked protostack p := by
  rw [← elimRoute_oam_iff hoam]
  constructor
  · exact fun h => h.1
  · rintro ⟨session, seq, h⟩
    exact ⟨⟨session, seq, h⟩, rcvy_elimExecute_of_oam s launched h⟩

theorem elimStep_congr {ed : ElimData} {s t : ElimState} (e : ElimEvent) (h : s.rcvy = t.rcvy) :
    (elimStep ed s e).2 = (elimStep ed t e).2 ∧
      (elimStep ed s e).1.rcvy = (elimStep ed t e).1.rcvy := by
  cases e with
  | packet p launched =>
    simp only [elimStep, elimExecute]
    cases elimRoute ed p with
    | processPacket | oamRecovery session seq | notContinuous => simp only [h, and_self]
  | reset | expire session => simp only [elimStep, h, and_self]

/-- The packet of an event has its mark where the action looks for it. -/
def ElimEvent.Marked : ElimEvent → Prop
  | .packet p _ => ElimMarked protostack p
  | _ => True

/-- An eliminate action does not disturb data exactly if all maintenance packets
have their mark. -/
theorem elimUndisturbed_iff (s : ElimState) (es : List ElimEvent) :
    ElimUndisturbed protostack s es ↔
      ∀ e ∈ es, e.isData protostack = false → e.Marked protostack := by
  refine undisturbed_iff _ _ (fun s t e _ h => elimStep_congr e h) ?_ ?_ s es
  · intro s e he hover
    cases e with
    | packet p launched => exact hover.2
    | reset | expire session => cases he
  · intro s e he
    cases e with
    | packet p launched =>
      have hoam : isOam protostack p.packet = true := by
        simpa only [ElimEvent.isData, Bool.not_eq_false'] using he
      exact handedOver_iff s launched hoam
    | reset | expire session => cases he

/-! ## The packet ordering function -/

variable (pof : Pof ι)

inductive OrderEvent (ι : Type*) where
  | packet (p : OamPacket) (pi : ι) (now : Nat)
  | event (now : Nat)
  | timeout (now : Nat)

def orderStep : OrderEvent ι → Pof ι × PofOutput ι
  | .packet p pi now =>
    let inserted := pofInsert pof pi p.sequence now
    (inserted.1, ⟨some inserted.2.1, inserted.2.2, []⟩)
  | .event now => pofStep pof (.event now)
  | .timeout now => pofStep pof (.timeout now)

def OrderEvent.isData : OrderEvent ι → Bool
  | .packet p _ _ => !isOam protostack p.packet
  | _ => true

/-- The packet goes on at once, and nothing changes. -/
def PassedThrough : OrderEvent ι → Prop
  | .packet p pi now => pofInsert pof pi p.sequence now = (pof, .acrContinue, none)
  | _ => True

/-- Maintenance packets pass, and the packet ordering function gives the same
answers and has the same states without them. -/
def PofUndisturbed (es : List (OrderEvent ι)) : Prop :=
  Undisturbed orderStep (OrderEvent.isData protostack) id PassedThrough pof es

/-- The packet of an event has its mark where the function looks for it. -/
def OrderEvent.Marked : OrderEvent ι → Prop
  | .packet p _ _ => seqIsOam p.sequence = true
  | _ => True

theorem pofInsert_passes_iff (pi : ι) (sequence now : Nat) :
    pofInsert pof pi sequence now = (pof, .acrContinue, none) ↔ seqIsOam sequence = true := by
  unfold pofInsert
  grind

theorem pofUndisturbed_iff (es : List (OrderEvent ι)) : PofUndisturbed protostack pof es ↔
      ∀ e ∈ es, e.isData protostack = false → e.Marked := by
  refine undisturbed_iff _ _ (fun s t e _ h => ?_) ?_ ?_ pof es
  · rw [show s = t from h]
    exact ⟨rfl, rfl⟩
  · intro s e he hpass
    cases e with
    | packet p pi now =>
      simp only [PassedThrough] at hpass
      simp only [orderStep, hpass, id_eq]
    | event now | timeout now => cases he
  · intro s e he
    cases e with
    | packet p pi now => exact pofInsert_passes_iff s pi p.sequence now
    | event now | timeout now => cases he

/-- Maintenance packets do not disturb data, whatever their order, exactly if every
one of them has its mark where the action looks for it. -/
theorem oamTraffic_undisturbed_iff (protostack : Option (List ProtocolID)) (s : ElimState)
    (es : List ElimEvent) (pof : Pof ι) (fs : List (OrderEvent ι)) :
    (ElimUndisturbed protostack s es ↔
      ∀ e ∈ es, e.isData protostack = false → e.Marked protostack) ∧
    (PofUndisturbed protostack pof fs ↔
      ∀ f ∈ fs, f.isData protostack = false → f.Marked) :=
  ⟨elimUndisturbed_iff protostack s es, pofUndisturbed_iff protostack pof fs⟩

/-! ## Where the mark comes from -/

/-- The sequence number in the headers of a stack, as `readseq` finds it. -/
def ownSequence (stack : List ProtocolID) : Option HeaderField :=
  (List.range stack.length).findSome? fun i =>
    let id := stack.getD i .payload
    ((protocolGetFieldByType id .tsnSeq).or (protocolGetFieldByType id .srv6Seq)).map fun f =>
      ⟨i, f.bitoffset, f.bitcount⟩

theorem testBit_sequenceOctets (a : UInt8) {b c d : UInt8} (i : Nat) :
    (sequenceOctets [a, b, c, d]).testBit (24 + i) = a.toNat.testBit i := by
  have hword : sequenceOctets [a, b, c, d] =
      2 ^ 24 * a.toNat + (b.toNat * 65536 + c.toNat * 256 + d.toNat) := by
    simp only [sequenceOctets, take_succ_cons, take_zero, foldl_cons, foldl_nil]
    omega
  have hb := b.toNat_lt
  have hc := c.toNat_lt
  have hd := d.toNat_lt
  rw [hword, Nat.testBit_two_pow_mul_add _ (by omega), if_neg (by omega), Nat.add_sub_cancel_left]

theorem octet_forall {P : UInt8 → Prop} (h : ∀ n < 256, P (UInt8.ofNat n)) (a : UInt8) : P a := by
  have ha := h a.toNat a.toNat_lt
  rwa [UInt8.ofNat_toNat] at ha

theorem testBit_of_oamNibble (a : UInt8) (h : oamNibble a = true) : a.toNat.testBit 4 = true := by
  revert a
  exact octet_forall (by decide +kernel)

/-- Without the upper four bits there is a mark for an eliminate action, but none for
a packet ordering function. -/
theorem srv6Bits (a : UInt8) (h : (a &&& 1 == 1) = true) :
    (a &&& 0x0f).toNat.testBit 0 = true ∧ (a &&& 0x0f).toNat.testBit 4 = false := by
  revert a
  exact octet_forall (by decide +kernel)

theorem seqIsOam_readseq {idx : Nat} {id : ProtocolID} (hid : id ≠ .ipv6)
    (htype : p.packet.headers[idx]?.map PacketHeader.type = some id)
    (hoam : oamNibble (p.packet.buf (headerStart p.packet idx)) = true) :
    seqIsOam (actionReadseqExecute ⟨idx, 0, 32⟩ p).sequence = true := by
  have hne : ¬ p.packet.headers[idx]?.map PacketHeader.type = some .ipv6 := by
    rw [htype, Option.some.injEq]
    exact hid
  simp only [actionReadseqExecute, if_neg hne]
  exact (testBit_sequenceOctets _ 4).trans (testBit_of_oamNibble _ hoam)

theorem testBit_readseq_ipv6 (htype : p.packet.headers[0]?.map PacketHeader.type = some .ipv6)
    (i : Nat) : (actionReadseqExecute ⟨0, 292, 28⟩ p).sequence.testBit (24 + i) =
      (p.packet.buf (headerStart p.packet 0 + 36) &&& 0x0f).toNat.testBit i := by
  simp only [actionReadseqExecute, if_pos htype]
  exact testBit_sequenceOctets _ i

theorem type_of_stack {stack : List ProtocolID} {p : Packet}
    (h : stack <+: p.headers.map PacketHeader.type) {idx : Nat} {id : ProtocolID}
    (hid : stack[idx]? = some id) : p.headers[idx]?.map PacketHeader.type = some id := by
  obtain ⟨rest, hrest⟩ := h
  have hlt : idx < stack.length := by
    rw [getElem?_eq_some_iff] at hid
    exact hid.1
  rw [← getElem?_map, ← hrest, getElem?_append_left hlt]
  exact hid

/-- A packet that has been read by the sequence number of its own stack has the mark
of an eliminate action. It has the one of a packet ordering function as well,
unless it is an SRv6 packet. -/
theorem marked_readseq {stack : List ProtocolID} (hmem : stack ∈ oamPossibleProtostacks)
    {field : HeaderField} (hfield : ownSequence stack = some field)
    (hstack : stack <+: p.packet.headers.map PacketHeader.type)
    (hlinear : packetIsLinear p.packet = true) (hoam : isOam (some stack) p.packet = true) :
    ElimMarked (some stack) (actionReadseqExecute field p) ∧
      (seqIsOam (actionReadseqExecute field p).sequence = true ↔ stack ≠ [.ipv6]) := by
  simp only [oamPossibleProtostacks, mem_cons, not_mem_nil, or_false] at hmem
  rcases hmem with rfl | rfl | rfl | rfl | rfl | rfl
  · -- the bit is kept, but the nibble is not
    cases hfield
    have hbit := testBit_readseq_ipv6 (type_of_stack hstack rfl)
    obtain ⟨hset, hclear⟩ := srv6Bits _ hoam
    refine ⟨⟨hlinear, (hbit 0).trans hset⟩, ?_⟩
    have hpof : seqIsOam (actionReadseqExecute ⟨0, 292, 28⟩ p).sequence = false :=
      (hbit 4).trans hclear
    rw [hpof]
    exact iff_of_false Bool.false_ne_true (not_not_intro rfl)
  · cases hfield
    have hset := seqIsOam_readseq (by decide) (type_of_stack hstack rfl) hoam
    exact ⟨⟨hlinear, hset⟩, iff_of_true hset (by decide)⟩
  · cases hfield
    have hset := seqIsOam_readseq (by decide) (type_of_stack hstack rfl) hoam
    have hrtag : (analyzeProtostack [.eth, .cvlan, .rtag]).rtagIndex ≠ 0 := by decide
    exact ⟨⟨hlinear, hrtag⟩, iff_of_true hset (by decide)⟩
  · cases hfield
    have hset := seqIsOam_readseq (by decide) (type_of_stack hstack rfl) hoam
    have hrtag : (analyzeProtostack [.eth, .svlan, .rtag]).rtagIndex ≠ 0 := by decide
    exact ⟨⟨hlinear, hrtag⟩, iff_of_true hset (by decide)⟩
  -- the other stacks have no sequence number
  · cases hfield
  · cases hfield

/-! ## Packets of maintenance points -/

section

variable (env : SendContext) (mp : OamMaintenancePoint) (buf : Nat → UInt8) (req : OamRequest)

def builtPacket : OamPacket :=
  (mpPackMessageHeader env mp (newOamPacket buf) req).1

/-- The numbers of a request are in the place of a data packet's sequence number. -/
def Numbered : Prop :=
  mp.encap = .pw ∨ mp.hasRtag = true

theorem sequence_built_srv6 (h : mp.encap = .srv6) :
    (builtPacket env mp buf req).sequence = req.seq.toNat := by
  simp only [builtPacket, mpPackMessageHeader, h, packSrv6MessageHeader]

theorem sequence_built_noRtag (h : mp.encap = .tsn) (hrtag : mp.hasRtag = false) :
    (builtPacket env mp buf req).sequence = 0 := by
  simp [builtPacket, mpPackMessageHeader, h, packTsnMessageHeader, hrtag, newOamPacket]

theorem seqIsOam_built_pw (h : mp.encap = .pw) :
    seqIsOam (builtPacket env mp buf req).sequence = true := by
  simp only [builtPacket, mpPackMessageHeader, h, packPwMessageHeader]
  exact testBit_sequenceOctets 0x10 4

theorem seqIsOam_built_rtag (h : mp.encap = .tsn) (hrtag : mp.hasRtag = true) :
    seqIsOam (builtPacket env mp buf req).sequence = true := by
  simp only [builtPacket, mpPackMessageHeader, h, packTsnMessageHeader, hrtag, if_true]
  exact testBit_sequenceOctets 0x10 4

theorem head?_protostack :
    mp.protostack.head? =
      match mp.encap with
      | .srv6 => some .ipv6
      | .pw => some .mpls
      | .tsn => some .eth := by
  have hall : ∀ stack ∈ oamPossibleProtostacks, stack.head? =
      match oamEncap stack with
      | .srv6 => some .ipv6
      | .pw => some .mpls
      | .tsn => some .eth := by decide
  exact hall mp.protostack mp.protostack_mem

theorem hasRtag_iff :
    mp.hasRtag = true ↔ mp.encap = .tsn ∧ (analyzeProtostack mp.protostack).rtagIndex ≠ 0 := by
  have hall : ∀ stack ∈ oamPossibleProtostacks,
      (decide (stack.getD 2 .payload = .rtag) = true ↔
        oamEncap stack = .tsn ∧ (analyzeProtostack stack).rtagIndex ≠ 0) := by decide
  exact hall mp.protostack mp.protostack_mem

/-- A packet that a maintenance point has built has its marks in a pseudowire and
with an R-TAG. On SRv6 it is only in the address, and the word is the number of
the request alone. -/
theorem marked_built :
    (ElimMarked (some mp.protostack) (builtPacket env mp buf req) ↔ Numbered mp) ∧
      (seqIsOam (builtPacket env mp buf req).sequence = true ↔ Numbered mp) := by
  have hlinear : packetIsLinear (builtPacket env mp buf req).packet = true :=
    (newlyPacked_requestPacket env mp buf req).readable.linear
  have hhead := head?_protostack mp
  cases hencap : mp.encap with
  | srv6 =>
    rw [hencap] at hhead
    have hnot : ¬ Numbered mp := by
      rw [Numbered, hasRtag_iff, hencap]
      simp
    have hsmall (i : Nat) (hi : 8 ≤ i) :
        (builtPacket env mp buf req).sequence.testBit i = false := by
      rw [sequence_built_srv6 env mp buf req hencap]
      refine Nat.testBit_lt_two_pow (Nat.lt_of_lt_of_le req.seq.toNat_lt ?_)
      exact Nat.pow_le_pow_right (by decide) hi
    have hpof : seqIsOam (builtPacket env mp buf req).sequence = false := hsmall 28 (by decide)
    simp [ElimMarked, hhead, hlinear, hsmall 24 (by decide), hpof, hnot]
  | pw =>
    rw [hencap] at hhead
    have hset := seqIsOam_built_pw env mp buf req hencap
    simp [ElimMarked, hhead, hlinear, hset, Numbered, hencap]
  | tsn =>
    rw [hencap] at hhead
    have hindex : (analyzeProtostack mp.protostack).rtagIndex ≠ 0 ↔ mp.hasRtag = true := by
      rw [hasRtag_iff, hencap, eq_self, true_and]
    have hnumbered : Numbered mp ↔ mp.hasRtag = true := by
      simp [Numbered, hencap]
    constructor
    · simp only [ElimMarked, hhead, hlinear, hindex, hnumbered, true_and]
    · rw [hnumbered]
      cases hrtag : mp.hasRtag with
      | false =>
        -- the word of a new packet
        rw [sequence_built_noRtag env mp buf req hencap hrtag]
        decide
      | true => exact iff_of_true (seqIsOam_built_rtag env mp buf req hencap hrtag) rfl

theorem isOam_built_srv6 (h : mp.encap = .srv6) :
    isOam (some mp.protostack) (builtPacket env mp buf req).packet = true := by
  have hpacket : (builtPacket env mp buf req).packet = _ := requestPacket_srv6 env mp buf req h
  have hhead := head?_protostack mp
  rw [h] at hhead
  have hset : ∀ a : UInt8, ((a ||| 1) &&& 1 == 1) = true := octet_forall (by decide +kernel)
  simp only [isOam, packetIsOam, hhead, hpacket]
  -- the address is written first, and the bit into it
  exact hset (mp.address 12)

end

/-! ## A ping that takes a number of the data -/

def srv6Ping : OamPacket :=
  builtPacket pingContext (pingPoint [.ipv6] (by decide)) (fun _ => 0) pingRequest

def srv6Data : OamPacket :=
  ⟨{ newPacket (fun _ => 0) with headers := [⟨.ipv6, 1024, 40⟩] }, 64, 9⟩

def srv6Recovery : ElimState :=
  ⟨newSeqRec .rcvyVector false false 4 1000, []⟩

/-- The data packet is passed without the ping, and discarded behind it. A packet
ordering function holds the ping back, even after it has been read. -/
theorem srv6Ping_disturbs :
    (elimStep (createActionElim (some [.ipv6])) srv6Recovery (.packet srv6Data true)).2 =
      some true ∧
    (elimStep (createActionElim (some [.ipv6]))
      (elimStep (createActionElim (some [.ipv6])) srv6Recovery (.packet srv6Ping true)).1
      (.packet srv6Data true)).2 = some false ∧
    ¬ ElimUndisturbed (some [.ipv6]) srv6Recovery [.packet srv6Ping true, .packet srv6Data true] ∧
    ¬ PofUndisturbed (some [.ipv6]) (newPof 100 100 10 : Pof Unit)
      [.packet (actionReadseqExecute ⟨0, 292, 28⟩ srv6Ping) () 0] := by
  have hseq : srv6Ping.sequence = 9 :=
    sequence_built_srv6 pingContext (pingPoint [.ipv6] (by decide)) _ pingRequest rfl
  have hoam : isOam (some [.ipv6]) srv6Ping.packet = true :=
    isOam_built_srv6 pingContext (pingPoint [.ipv6] (by decide)) _ pingRequest rfl
  have hroute (p : OamPacket) (hp : p.sequence = 9) :
      elimRoute (createActionElim (some [.ipv6])) p = .processPacket := by
    have hbit : Nat.testBit 9 24 = false := by decide
    simp [elimRoute, createActionElim, hp, hbit, routeFound]
  refine ⟨?_, ?_, fun h => ?_, fun h => ?_⟩
  · simp only [elimStep, elimExecute, hroute srv6Data rfl]
    decide
  · simp only [elimStep, elimExecute, hroute srv6Data rfl, hroute srv6Ping hseq, hseq]
    decide
  · have hdata : ElimEvent.isData (some [.ipv6]) (.packet srv6Ping true) = false := by
      rw [ElimEvent.isData, hoam]
      rfl
    have hmarked := (elimUndisturbed_iff _ _ _).mp h _ mem_cons_self hdata
    rcases (marked_built pingContext (pingPoint [.ipv6] (by decide)) (fun _ => 0)
      pingRequest).1.mp hmarked with hpw | hrtag
    · cases hpw
    · cases hrtag
  · have hpacket : (actionReadseqExecute ⟨0, 292, 28⟩ srv6Ping).packet = srv6Ping.packet := rfl
    have hdata : OrderEvent.isData (some [.ipv6])
        (.packet (actionReadseqExecute ⟨0, 292, 28⟩ srv6Ping) () 0) = false := by
      rw [OrderEvent.isData, hpacket, hoam]
      rfl
    have hmarked := (pofUndisturbed_iff _ _ _).mp h _ mem_cons_self hdata
    have hlinear : packetIsLinear srv6Ping.packet = true :=
      (newlyPacked_requestPacket pingContext (pingPoint [.ipv6] (by decide)) _
        pingRequest).readable.linear
    have hstack : [ProtocolID.ipv6] <+: srv6Ping.packet.headers.map PacketHeader.type := by
      have hbuilt : srv6Ping.packet = _ :=
        requestPacket_srv6 pingContext (pingPoint [.ipv6] (by decide)) _ pingRequest rfl
      rw [hbuilt]
      exact ⟨_, rfl⟩
    exact (marked_readseq (by decide) rfl hstack hlinear hoam).2.mp hmarked rfl

end Dnt
