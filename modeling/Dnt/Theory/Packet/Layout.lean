import Mathlib.Data.Set.Lattice
import Mathlib.Order.CompletePartialOrder
import Mathlib.Data.List.InsertIdx
import Dnt.Core.Packet

/-!
# Packet Layout

Where the headers of a packet lie, whatever operations made them. The scratch space is
never reclaimed. `packetEnlargeScratch` moves the received area away, and may do so only
because with nothing received no header of positive length can lie there.

## Main definitions

* `PacketLayout`: Received headers are inside the received packet, added ones in the scratch
  space, which stays clear of it, and no two of them share octets.
* `Received`: A new packet, or one an interface has just filled.

## Theorems

* `packetRun_layout`: Every sequence of calls keeps the layout, and a call that fails leaves
  the packet unchanged.
-/

namespace Dnt

open Mealy

variable {p : Packet}

def byteRange (h : PacketHeader) : Set Nat :=
  Set.Ico h.start (h.start + h.len)

def scratchArea (p : Packet) : Set Nat :=
  Set.Ico 0 p.scratchLen

def receivedArea (p : Packet) : Set Nat :=
  Set.Ico p.start (p.start + p.len)

/-- A new packet, or one an interface has just filled. Interfaces move `start`
a little to make room for or skip an Ethernet header or VLAN tag. -/
structure Received (p : Packet) : Prop where
  headers : p.headers = []
  scratchLen : p.scratchLen = 0
  start_pos : 0 < p.start
  start_le : p.start ≤ packetBufLen

variable {len : Nat} {op : PacketOp} {type : ProtocolID}

open List

theorem newPacket_received (buf : Nat → UInt8) : Received (newPacket buf) := by
  refine ⟨rfl, rfl, ?_, ?_⟩ <;> simp only [newPacket, packetStartOffset, packetBufLen] <;> omega

/-- Every header is in one of two areas, and in the first one they do not overlap. -/
structure PacketLayout (p : Packet) : Prop where
  headerCount : p.headers.length ≤ packetMaxHeaderNum
  scratch_lt : p.scratchLen < p.start
  start_le : p.start ≤ packetBufLen
  placed : ∀ h ∈ p.headers, 0 < h.len →
    byteRange h ⊆ scratchArea p ∨ byteRange h ⊆ receivedArea p
  disjoint : p.headers.Pairwise fun h h' =>
    byteRange h ⊆ scratchArea p → byteRange h' ⊆ scratchArea p →
      Disjoint (byteRange h) (byteRange h')

/-- The sums an operation computes stay below 32 bits. -/
def NoOverflow (p : Packet) : PacketOp → Prop
  | .identifyHeader _ offset len => offset + len < 4294967296 ∧ p.start + offset < 4294967296
  | .addHeader _ _ len => p.scratchLen + len < 4294967296
  | _ => True

instance (p : Packet) (op : PacketOp) : Decidable (NoOverflow p op) := by
  cases op <;> unfold NoOverflow <;> infer_instance

/-- A call reports failure, or removes a header that is not there. -/
def Fails (p : Packet) (op : PacketOp) : Prop :=
  (packetStep p op).2 = some false ∨ ∃ idx, op = .delHeader idx ∧ p.headers.length ≤ idx

theorem received_layout (h : Received p) : PacketLayout p := by
  refine ⟨?_, ?_, h.start_le, ?_, ?_⟩
  · rw [h.headers]
    exact Nat.zero_le _
  · rw [h.scratchLen]
    exact h.start_pos
  · rw [h.headers]
    exact fun x hx => absurd hx not_mem_nil
  · rw [h.headers]
    exact List.Pairwise.nil

theorem packetStep_unchanged (h : Fails p op) : (packetStep p op).1 = p := by
  rcases h with hfalse | ⟨idx, rfl, hidx⟩
  · cases op with
    | identifyHeader type offset len =>
      rcases packetIdentifyHeader_cases p type offset len with heq | ⟨heq, _⟩
      · simp only [packetStep, heq]
      · simp only [packetStep, heq, Option.some.injEq, Bool.true_eq_false] at hfalse
    | addHeader idx type len =>
      rcases packetAddHeader_cases p idx type len with heq | ⟨heq, _⟩
      · simp only [packetStep, heq]
      · simp only [packetStep, heq, Option.some.injEq, Bool.true_eq_false] at hfalse
    | delHeader _ | clearHeaders | enlargeScratch => simp only [packetStep, reduceCtorEq] at hfalse
  · simp only [packetStep, packetDelHeader]
    rw [if_pos hidx]

theorem start_mem_byteRange {h : PacketHeader} (hpos : 0 < h.len) : h.start ∈ byteRange h :=
  ⟨Nat.le_refl _, Nat.lt_add_of_pos_right hpos⟩

theorem byteRange_of_empty (h : PacketHeader) (hzero : h.len = 0) : byteRange h = ∅ := by
  rw [byteRange, hzero, Nat.add_zero, Set.Ico_self]

theorem packetIdentifyHeader_layout {offset : Nat} (h : PacketLayout p)
    (hfit : NoOverflow p (.identifyHeader type offset len)) :
    PacketLayout (packetIdentifyHeader p type offset len).2 := by
  rcases packetIdentifyHeader_cases p type offset len with heq | ⟨heq, hfull, hlong⟩
  · rw [heq]
    exact h
  rcases hfit with ⟨hsum, hstart⟩
  rw [@u32_of_lt _ hsum] at hlong
  rw [heq, @u32_of_lt _ hstart]
  refine ⟨?_, h.scratch_lt, h.start_le, ?_, ?_⟩
  · have hcount := h.headerCount
    simp only [length_append, length_singleton]
    omega
  · intro x hx hpos
    rcases mem_append.mp hx with hold | hnew
    · exact h.placed x hold hpos
    · -- the new header lies inside the received octets
      rw [mem_singleton.mp hnew]
      right
      intro b hb
      simp only [byteRange, receivedArea, Set.mem_Ico] at hb ⊢
      omega
  · rw [pairwise_append]
    refine ⟨h.disjoint, pairwise_singleton _ _, ?_⟩
    intro x _ y hy _ hscratch
    rw [mem_singleton.mp hy] at hscratch ⊢
    -- it is not in the scratch space, unless it is empty
    rcases Nat.eq_zero_or_pos len with hzero | hpos
    · rw [byteRange_of_empty ⟨type, p.start + offset, len⟩ hzero]
      exact Set.disjoint_empty _
    · have hmem := hscratch (start_mem_byteRange hpos)
      have hlt := h.scratch_lt
      simp only [scratchArea, Set.mem_Ico] at hmem
      omega

theorem mem_scratchArea_of_subset (h : PacketLayout p) {x : PacketHeader} (hx : x ∈ p.headers)
    (hpos : 0 < x.len) {n : Nat} (hn : n ≤ p.start) (hsub : byteRange x ⊆ Set.Ico 0 n) :
    byteRange x ⊆ scratchArea p := by
  rcases h.placed x hx hpos with hscratch | hreceived
  · exact hscratch
  · exfalso
    have hmem := start_mem_byteRange hpos
    have hlow := hsub hmem
    have hhigh := hreceived hmem
    simp only [receivedArea, Set.mem_Ico] at hlow hhigh
    omega

theorem packetAddHeader_layout {idx : Nat} (h : PacketLayout p)
    (hfit : NoOverflow p (.addHeader idx type len)) :
    PacketLayout (packetAddHeader p idx type len).2 := by
  rcases packetAddHeader_cases p idx type len with heq | ⟨heq, hfull, hidx, hspace⟩
  · rw [heq]
    exact h
  rw [u32_of_lt hfit] at hspace
  rw [heq, u32_of_lt hfit]
  have hperm := perm_insertIdx (⟨type, p.scratchLen, len⟩ : PacketHeader) p.headers hidx
  refine ⟨?_, hspace, h.start_le, ?_, ?_⟩
  · have hcount := h.headerCount
    have hlength := hperm.length_eq
    simp only [length_cons] at hlength
    simp only [hlength]
    omega
  · intro x hx hpos
    rcases mem_cons.mp (hperm.mem_iff.mp hx) with rfl | hold
    · left
      intro b hb
      simp only [byteRange, scratchArea, Set.mem_Ico] at hb ⊢
      omega
    · rcases h.placed x hold hpos with hscratch | hreceived
      · left
        intro b hb
        have hmem := hscratch hb
        simp only [scratchArea, Set.mem_Ico] at hmem ⊢
        omega
      · exact Or.inr hreceived
  · -- the clause is symmetric, so the new header may as well come first
    rw [hperm.pairwise_iff (fun hd hy hx => (hd hx hy).symm), pairwise_cons]
    constructor
    · -- everything older in the scratch space lies below the new header
      intro x hx _ hscratch
      rcases Nat.eq_zero_or_pos x.len with hzero | hpos
      · rw [byteRange_of_empty x hzero]
        exact Set.disjoint_empty _
      · have hold := mem_scratchArea_of_subset h hx hpos (Nat.le_of_lt hspace) hscratch
        rw [Set.disjoint_left]
        intro b hnew hb
        have hmem := hold hb
        simp only [byteRange, scratchArea, Set.mem_Ico] at hnew hmem
        omega
    · -- what is in the larger scratch space was in the smaller one already
      refine h.disjoint.imp_of_mem ?_
      intro x y hx hy hd hxs hys
      rcases Nat.eq_zero_or_pos x.len with hzero | hxpos
      · rw [byteRange_of_empty x hzero]
        exact Set.empty_disjoint _
      rcases Nat.eq_zero_or_pos y.len with hzero | hypos
      · rw [byteRange_of_empty y hzero]
        exact Set.disjoint_empty _
      exact hd (mem_scratchArea_of_subset h hx hxpos (Nat.le_of_lt hspace) hxs)
        (mem_scratchArea_of_subset h hy hypos (Nat.le_of_lt hspace) hys)

theorem packetDelHeader_layout (idx : Nat) (h : PacketLayout p) :
    PacketLayout (packetDelHeader p idx) := by
  unfold packetDelHeader
  by_cases hidx : idx ≥ p.headers.length
  · rw [if_pos hidx]
    exact h
  rw [if_neg hidx]
  have hsub : (p.headers.eraseIdx idx).Sublist p.headers := eraseIdx_sublist _ _
  refine ⟨?_, h.scratch_lt, h.start_le, ?_, ?_⟩
  · exact Nat.le_trans hsub.length_le h.headerCount
  · exact fun x hx => h.placed x (hsub.subset hx)
  · exact h.disjoint.sublist hsub

theorem packetClearHeaders_layout (h : PacketLayout p) : PacketLayout (packetClearHeaders p) := by
  refine ⟨Nat.zero_le _, ?_, h.start_le, fun x hx => absurd hx not_mem_nil, List.Pairwise.nil⟩
  have hlt := h.scratch_lt
  simp only [packetClearHeaders]
  omega

theorem packetEnlargeScratch_layout (h : PacketLayout p) :
    PacketLayout (packetEnlargeScratch p) := by
  unfold packetEnlargeScratch
  by_cases hlen : p.len = 0
  · rw [if_pos hlen]
    refine ⟨h.headerCount, ?_, Nat.le_refl _, ?_, h.disjoint⟩
    · exact Nat.lt_of_lt_of_le h.scratch_lt h.start_le
    · -- with nothing received, a header of positive length is in the scratch space
      intro x hx hpos
      rcases h.placed x hx hpos with hscratch | hreceived
      · exact Or.inl hscratch
      · exfalso
        have hmem := hreceived (start_mem_byteRange hpos)
        simp only [receivedArea, hlen, Set.mem_Ico] at hmem
        omega
  · rw [if_neg hlen]
    exact h

theorem packetStep_layout (h : PacketLayout p) (hfit : NoOverflow p op) :
    PacketLayout (packetStep p op).1 := by
  cases op with
  | identifyHeader type offset len => exact packetIdentifyHeader_layout h hfit
  | addHeader idx type len => exact packetAddHeader_layout h hfit
  | delHeader idx => exact packetDelHeader_layout idx h
  | clearHeaders => exact packetClearHeaders_layout h
  | enlargeScratch => exact packetEnlargeScratch_layout h

/-- From a new or just received packet, every sequence of calls whose sums fit
keeps the layout, and every call that fails leaves the packet unchanged. -/
theorem packetRun_layout (p : Packet) (hp : Received p) (ops : List PacketOp)
    (hfit : EveryStep packetStep NoOverflow p ops) :
    PacketLayout (final packetStep p ops) ∧
      EveryStep packetStep (fun p op => Fails p op → (packetStep p op).1 = p) p ops := by
  constructor
  · exact final_invariant_of_everyStep PacketLayout NoOverflow
      (fun p op h hop => packetStep_layout h hop) (received_layout hp) ops hfit
  · exact everyStep_of_invariant PacketLayout NoOverflow _
      (fun p op h hop => ⟨packetStep_layout h hop, packetStep_unchanged⟩)
      (received_layout hp) ops hfit

/-- A header is read, one is put in front of it, and one past the end of the
list is refused. -/
theorem packetRun_layout_push_front :
    Received { newPacket (fun _ => 0) with len := 60 } ∧
      PacketLayout (final packetStep { newPacket (fun _ => 0) with len := 60 }
        [.identifyHeader .eth 0 14, .addHeader 0 .rtag 6, .addHeader 9 .rtag 6, .delHeader 1]) :=
  ⟨⟨rfl, rfl, by decide, by decide⟩,
    (packetRun_layout _ ⟨rfl, rfl, by decide, by decide⟩
      [.identifyHeader .eth 0 14, .addHeader 0 .rtag 6, .addHeader 9 .rtag 6, .delHeader 1]
      ⟨⟨by decide, by decide⟩, by decide, by decide, trivial, trivial⟩).1⟩

end Dnt
