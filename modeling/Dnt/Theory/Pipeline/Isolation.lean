import Dnt.Core.OamMaintenance
import Dnt.Core.Replicate

/-!
# Branches of a Replicate Action

The last branch works on the packet itself and the ones before it on copies, so no branch sees
what another one does. That the copies are like the packet is another matter. They are filled
up to the end of what was received, which is enough for headers there or on the scratch space
in front of it, but a header may end later: if the first header of a packet is on the scratch
space, the maintenance layer takes all of it to be there, and lengthens the last header without
moving the end.

## Main definitions

* `Isolated`: Each branch that is served is run once, on what the action was given.
* `Covered`: No header ends behind what was received.

## Theorems

* `replLoop_eq`: The loop gives the packet to the last branch and copies to the others.
* `actionRepl_isolated_iff`: The branches are isolated exactly if the packet is covered, or
  no copy is made.
* `lengthened_payload_lost`: A message that was lengthened on its way is not.
-/

namespace Dnt

/-- Branches that are given a packet: those that are not masked, or all. -/
def ReplBranch.served (oam : Bool) (b : ReplBranch) : Bool :=
  !b.mask || oam

/-- The numbers of the branches that get the packet. -/
def servedBranches (oam : Bool) (k : Nat) (list : List ReplBranch) : List Nat :=
  ((list.zipIdx k).filter fun b => b.1.served oam).map Prod.snd

/-- The headers of the two, and the octets in them, are the same. -/
structure SameHeaders (p q : Packet) : Prop where
  headers : q.headers = p.headers
  octets : ∀ h ∈ p.headers, ∀ i < h.len, q.buf (h.start + i) = p.buf (h.start + i)

/-- Whatever is in new memory, each branch that is served is run once, and none else. -/
def Isolated (isOam : Packet → Bool) (heap : PacketHeap) (p : Fin heap.next)
    (list : List ReplBranch) : Prop :=
  ∀ garbage, (actionReplExecute isOam garbage heap p list).map Prod.fst =
      servedBranches (isOam (heap.packet p)) 0 list ∧
    ∀ run ∈ actionReplExecute isOam garbage heap p list, SameHeaders (heap.packet p) run.2

/-- No header ends behind the packet. -/
def Covered (p : Packet) : Prop :=
  ∀ h ∈ p.headers, ∀ i < h.len, h.start + i < p.start + p.len

def replRuns (oam : Bool) (garbage : Nat → Nat → UInt8) (p : Packet) :
    Nat → List ReplBranch → List (Nat × Packet)
  | _, [] => []
  | k, b :: rest =>
    let later := replRuns oam garbage p (k + 1) rest
    if b.served oam = true then
      (k, if rest.isEmpty = true then p else copiedPacket p (garbage k)) :: later
    else later

variable {isOam : Packet → Bool} {garbage : Nat → Nat → UInt8} {p : Packet} {oam : Bool}

/-- No branch but the last one is given the packet, so it stays as it is until then. -/
theorem replLoop_eq (iterpacket : Nat) (heap : PacketHeap) (known : Option Bool) (k : Nat)
    (list : List ReplBranch) (hlt : iterpacket < heap.next) (hp : heap.packet iterpacket = p)
    (hknown : known.getD (isOam p) = isOam p) :
    replLoop isOam garbage iterpacket heap known k list = replRuns (isOam p) garbage p k list := by
  induction list generalizing heap known k with
  | nil => rfl
  | cons b rest ih =>
    have hnext : (if b.mask = true then some (isOam p) else known).getD (isOam p) = isOam p := by
      split
      · rfl
      · exact hknown
    simp only [replLoop, replRuns, hp, hknown]
    by_cases hserved : b.served (isOam p) = true
    · have hrun : ¬ (b.mask = true ∧
          (if b.mask = true then some (isOam p) else known) = some false) := by
        rintro ⟨hmask, hoam⟩
        rw [if_pos hmask, Option.some.injEq] at hoam
        simp [ReplBranch.served, hmask, hoam] at hserved
      rw [if_neg hrun, if_pos hserved]
      cases rest with
      | nil => rfl
      | cons c cs =>
        have hcopy : (heap.copy iterpacket (garbage k)).packet heap.next =
            copiedPacket p (garbage k) :=
          (Function.update_self _ _ _).trans (by rw [hp])
        have hkept : (heap.copy iterpacket (garbage k)).packet iterpacket = p :=
          (Function.update_of_ne (Nat.ne_of_lt hlt) _ _).trans hp
        have hother := b.others (heap.copy iterpacket (garbage k)) heap.next iterpacket
          (Nat.lt_succ_of_lt hlt) (Nat.ne_of_lt hlt)
        have hgrows := b.grows (heap.copy iterpacket (garbage k)) heap.next
        rw [hcopy, ih _ _ (k + 1) (Nat.lt_of_lt_of_le (Nat.lt_succ_of_lt hlt) hgrows)
          (hother.trans hkept) hnext]
        rfl
    · have hskip : b.mask = true ∧ isOam p = false := by
        simpa [ReplBranch.served] using hserved
      rw [if_pos ⟨hskip.1, by rw [if_pos hskip.1, hskip.2]⟩, if_neg hserved]
      exact ih heap _ (k + 1) hlt hp hnext

theorem map_fst_replRuns (k : Nat) (list : List ReplBranch) :
    (replRuns oam garbage p k list).map Prod.fst = servedBranches oam k list := by
  induction list generalizing k with
  | nil => rfl
  | cons b rest ih =>
    rw [replRuns, servedBranches, List.zipIdx_cons, List.filter_cons]
    split
    · exact congrArg (k :: ·) (ih (k + 1))
    · exact ih (k + 1)

/-- The packet itself is fine, so only copies matter, and any copy may be made. -/
theorem forall_replRuns_iff {P : Packet → Prop} (hp : P p) (k : Nat) (list : List ReplBranch) :
    (∀ garbage, ∀ run ∈ replRuns oam garbage p k list, P run.2) ↔
      ((∃ b ∈ list.dropLast, b.served oam = true) → ∀ garbage, P (copiedPacket p garbage)) := by
  induction list generalizing k with
  | nil => exact iff_of_true nofun nofun
  | cons b rest ih =>
    cases rest with
    | nil =>
      refine iff_of_true (fun garbage run hrun => ?_) nofun
      simp only [replRuns] at hrun
      grind
    | cons c cs =>
      rw [List.dropLast_cons_cons, List.exists_mem_cons_iff, or_imp, ← ih (k + 1)]
      by_cases hserved : b.served oam = true
      · have heq (garbage : Nat → Nat → UInt8) : replRuns oam garbage p k (b :: c :: cs) =
            (k, copiedPacket p (garbage k)) :: replRuns oam garbage p (k + 1) (c :: cs) :=
          if_pos hserved
        simp only [heq, List.forall_mem_cons]
        constructor
        · intro h
          exact ⟨fun _ garbage => (h fun _ => garbage).1, fun garbage => (h garbage).2⟩
        · intro h garbage
          exact ⟨h.1 hserved _, h.2 garbage⟩
      · have heq (garbage : Nat → Nat → UInt8) : replRuns oam garbage p k (b :: c :: cs) =
            replRuns oam garbage p (k + 1) (c :: cs) :=
          if_neg hserved
        simp only [heq]
        exact ⟨fun h => ⟨(absurd · hserved), h⟩, And.right⟩

theorem sameHeaders_copied_iff :
    (∀ garbage, SameHeaders p (copiedPacket p garbage)) ↔ Covered p := by
  constructor
  · intro h hd hmem i hi
    by_contra hout
    -- new memory may hold something else
    have hsame := (h fun i => p.buf i + 1).octets hd hmem i hi
    simp only [copiedPacket, if_neg hout] at hsame
    exact absurd hsame (by simp)
  · intro h garbage
    exact ⟨rfl, fun hd hmem i hi => if_pos (h hd hmem i hi)⟩

/-- The branches are isolated exactly if the packet is covered, or there is no branch in front
of the last one that is served. -/
theorem actionRepl_isolated_iff (isOam : Packet → Bool) (heap : PacketHeap) (p : Fin heap.next)
    (list : List ReplBranch) :
    Isolated isOam heap p list ↔
      ((∃ b ∈ list.dropLast, b.mask = false ∨ isOam (heap.packet p) = true) →
        Covered (heap.packet p)) := by
  have heq (garbage : Nat → Nat → UInt8) : actionReplExecute isOam garbage heap p list =
      replRuns (isOam (heap.packet p)) garbage (heap.packet p) 0 list :=
    replLoop_eq p heap none 0 list p.isLt rfl rfl
  have hserved (b : ReplBranch) : b.served (isOam (heap.packet p)) = true ↔
      b.mask = false ∨ isOam (heap.packet p) = true := by
    simp [ReplBranch.served]
  simp only [Isolated, heq, map_fst_replRuns, true_and]
  rw [forall_replRuns_iff ⟨rfl, fun _ _ _ _ => rfl⟩, sameHeaders_copied_iff]
  simp only [hserved]

/-- A ping in SRv6 with its outer header, an inner one, and the message behind the eight octets
of ICMP. The outer header is then deleted and added again, so it is on the scratch space. -/
def readdressedPing : Packet :=
  let received : Packet := { newPacket (fun _ => 0) with
    len := 154, headers := [⟨.ipv6, 1024, 40⟩, ⟨.ipv6, 1064, 40⟩, ⟨.payload, 1104, 74⟩] }
  (packetAddHeader (packetDelHeader received 0) 0 .ipv6 40).2

/-- Two points have recorded their names in the ping. -/
def recordedPing : JsonObject :=
  [("code", .string "request"), ("level", .number 3), ("rr", .array [.string "a", .string "b"]),
    ("target", .string "z"), ("type", .string "ping")]

def recordedText : List UInt8 :=
  asciiOctets ("\x7b\"code\":\"request\",\"level\":3,\"rr\":[\"a\",\"b\"]," ++
    "\"target\":\"z\",\"type\":\"ping\"\x7d")

/-- A library that writes this message, and nothing else. -/
def recordedLibrary : JsonLibrary where
  jsonParse _ := none
  jsonSerialize
    | .object [("code", .string "request"), ("level", .number level),
        ("rr", .array [.string "a", .string "b"]), ("target", .string "z"),
        ("type", .string "ping")] => if level = 3 then some recordedText else none
    | _ => none
  jsonSerialize_ne_nil v text h := by
    split at h
    · split_ifs at h
      cases h
      decide
    · cases h

/-- The ping with the name of the second point written into it. -/
def lengthenedPing : Packet :=
  (packSrv6Payload 0 recordedLibrary readdressedPing recordedPing).getD readdressedPing

def idleBranch : ReplBranch :=
  ⟨false, fun heap _ => heap, fun _ _ => Nat.le_refl _, fun _ _ _ _ _ => rfl⟩

/-- The first of two branches does not get the end of the payload. -/
theorem lengthened_payload_lost :
    (packSrv6Payload 0 recordedLibrary readdressedPing recordedPing).isSome = true ∧
      ¬ Isolated (fun _ => true) ⟨fun _ => lengthenedPing, 1⟩ 0 [idleBranch, idleBranch] := by
  have hheaders : lengthenedPing.headers =
      [⟨.ipv6, 0, 40⟩, ⟨.ipv6, 1064, 40⟩, ⟨.payload, 1104, 192⟩] := by decide
  have hbuf : lengthenedPing.buf (1104 + 191) = 0 := by decide
  refine ⟨by decide, fun h => ?_⟩
  have hfirst := (h fun _ _ => 1).2 (0, copiedPacket lengthenedPing fun _ => 1)
    List.mem_cons_self
  have hoctet : (copiedPacket lengthenedPing fun _ => 1).buf (1104 + 191) = _ :=
    hfirst.octets ⟨.payload, 1104, 192⟩ (by rw [hheaders]; decide) 191 (by decide)
  rw [hbuf] at hoctet
  exact absurd hoctet (by decide)

end Dnt
