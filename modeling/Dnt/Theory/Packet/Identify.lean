import Mathlib.Algebra.BigOperators.Group.List.Basic
import Dnt.Core.ConfInterface
import Dnt.Theory.Packet.Layout

/-!
# Trying a Stream

A stream selects a packet when reading the received octets as its headers fits and
all matches hold. The matches of a header are looked at when only the headers up to it
are there: a match only reads the header it is written for.

## Main definitions

* `laidOut`, `classified`: The packet read as some headers, without and with the payload.
* `Fits`, `Selects`: The headers can be identified, and their matches hold.

## Theorems

* `identifyStream_selects`: The loop lays the packet out if the stream selects it.
* `identifyStream_rejects`: It leaves the packet as it was if the stream does not.
* `packetIdentifyHeader_payload`: Behind headers that fit, the payload is what is left.
-/

namespace Dnt

variable {ds hs : List HeaderDescriptor}

def headerLength (h : HeaderDescriptor) : Nat :=
  (protocolFromId h.id).bytelength

def totalLength (hs : List HeaderDescriptor) : Nat :=
  (hs.map headerLength).sum

/-- Headers one after the other, the first one at `start`. -/
def layoutFrom : Nat → List HeaderDescriptor → List PacketHeader
  | _, [] => []
  | start, h :: hs => ⟨h.id, start, headerLength h⟩ :: layoutFrom (start + headerLength h) hs

/-- The headers of a stream can be identified in a packet: there are not too
many, each starts behind the one before, and all lie in the packet. -/
structure Fits (p : Packet) (hs : List HeaderDescriptor) : Prop where
  count : hs.length ≤ packetMaxHeaderNum
  increasing : (layoutFrom p.start hs).Pairwise fun x y => x.start < y.start
  total : totalLength hs ≤ p.len

/-- The packet read as the given headers. -/
def laidOut (p : Packet) (hs : List HeaderDescriptor) : Packet :=
  { p with headers := layoutFrom p.start hs }

/-- The payload header behind the headers of a stream. There is none when no
slot is left for it, or when a header of no length sits in its place. -/
def payloadTail (p : Packet) (hs : List HeaderDescriptor) : List PacketHeader :=
  if hs.length < packetMaxHeaderNum ∧ ∀ h ∈ hs, 0 < headerLength h then
    [⟨.payload, p.start + totalLength hs, p.len - totalLength hs⟩]
  else []

/-- The packet as the pipeline of a stream with these headers gets it. -/
def classified (p : Packet) (hs : List HeaderDescriptor) : Packet :=
  { p with headers := layoutFrom p.start hs ++ payloadTail p hs }

/-- Every match of the headers holds on the packet read as them. -/
def Matching (p : Packet) (hs : List HeaderDescriptor) : Prop :=
  ∀ h ∈ hs, ∀ m ∈ h.matchList, matchHolds m (laidOut p hs) = true

/-- A stream with these headers takes the packet. -/
def Selects (p : Packet) (hs : List HeaderDescriptor) : Prop :=
  Fits p hs ∧ Matching p hs

instance (p : Packet) (hs : List HeaderDescriptor) : Decidable (Fits p hs) :=
  decidable_of_iff (hs.length ≤ packetMaxHeaderNum ∧
    ((layoutFrom p.start hs).Pairwise fun x y => x.start < y.start) ∧ totalLength hs ≤ p.len)
    ⟨fun h => ⟨h.1, h.2.1, h.2.2⟩, fun h => ⟨h.count, h.increasing, h.total⟩⟩

instance (p : Packet) (hs : List HeaderDescriptor) : Decidable (Selects p hs) := by
  unfold Selects Matching
  infer_instance

variable {h : HeaderDescriptor} {p : Packet}

open List

theorem totalLength_append (ds hs : List HeaderDescriptor) :
    totalLength (ds ++ hs) = totalLength ds + totalLength hs := by
  simp [totalLength]

theorem layoutFrom_append (start : Nat) (ds hs : List HeaderDescriptor) :
    layoutFrom start (ds ++ hs) =
      layoutFrom start ds ++ layoutFrom (start + totalLength ds) hs := by
  induction ds generalizing start with
  | nil => rfl
  | cons d ds ih =>
    simp only [cons_append, layoutFrom, ih]
    rw [show start + headerLength d + totalLength ds = start + totalLength (d :: ds) by
      simp only [totalLength, map_cons, sum_cons]
      omega]

theorem length_layoutFrom (start : Nat) : (layoutFrom start hs).length = hs.length := by
  induction hs generalizing start with
  | nil => rfl
  | cons h hs ih => simp [layoutFrom, ih]

theorem totalLength_le (hs : List HeaderDescriptor) : totalLength hs ≤ 40 * hs.length := by
  induction hs with
  | nil => exact Nat.le_refl _
  | cons h hs ih =>
    have hle := bytelength_le h.id
    simp only [totalLength, map_cons, sum_cons, length_cons, headerLength] at ih ⊢
    omega

theorem forall_start_lt_iff (l : List PacketHeader) (n : Nat)
    (h : l.Pairwise fun x y => x.start < y.start) :
    (∀ x ∈ l, x.start < n) ↔ ¬ l.getLast?.any (fun x => decide (x.start ≥ n)) = true := by
  rcases eq_nil_or_concat l with rfl | ⟨init, last, rfl⟩
  · simp
  · rw [concat_eq_append] at h ⊢
    rw [getLast?_concat, Option.any_some, decide_eq_true_eq, ge_iff_le, Nat.not_le]
    constructor
    · exact fun hall => hall last (mem_append_right _ (mem_singleton_self last))
    · intro hlast x hx
      rcases mem_append.mp hx with hinit | hx
      · have hlt := (pairwise_append.mp h).2.2 x hinit last (mem_singleton_self last)
        omega
      · rw [mem_singleton.mp hx]
        exact hlast

theorem fits_append_left (h : Fits p (ds ++ hs)) : Fits p ds := by
  refine ⟨?_, ?_, ?_⟩
  · have hcount := h.count
    rw [length_append] at hcount
    omega
  · have hinc := h.increasing
    rw [layoutFrom_append] at hinc
    exact (pairwise_append.mp hinc).1
  · have htotal := h.total
    rw [totalLength_append] at htotal
    omega

theorem packetIdentifyHeader_laidOut (hp : Received p) (h : HeaderDescriptor) (hfit : Fits p ds) :
    packetIdentifyHeader (laidOut p ds) h.id (totalLength ds) (headerLength h) =
      if Fits p (ds ++ [h]) then (true, laidOut p (ds ++ [h])) else (false, laidOut p ds) := by
  have hstart := hp.start_le
  have hcount := hfit.count
  have hsmall := totalLength_le ds
  have hle : headerLength h ≤ 40 := bytelength_le h.id
  unfold packetMaxHeaderNum at hcount
  unfold packetBufLen at hstart
  -- the sums are small, so they do not wrap
  have hu1 : u32 ((laidOut p ds).start + totalLength ds) = p.start + totalLength ds :=
    @u32_of_lt _ (by simp only [laidOut]; omega)
  have hu2 : u32 (totalLength ds + headerLength h) = totalLength ds + headerLength h :=
    @u32_of_lt _ (by omega)
  have hone : totalLength [h] = headerLength h := by
    simp [totalLength]
  -- the three checks are the three clauses of fitting
  have hiff : Fits p (ds ++ [h]) ↔
      (¬ (laidOut p ds).headers.length = packetMaxHeaderNum) ∧
      (¬ (laidOut p ds).headers.getLast?.any
        (fun x => decide (x.start ≥ p.start + totalLength ds)) = true) ∧
      ¬ totalLength ds + headerLength h > (laidOut p ds).len := by
    rw [← forall_start_lt_iff (laidOut p ds).headers _ hfit.increasing]
    simp only [laidOut, length_layoutFrom, packetMaxHeaderNum]
    constructor
    · intro hall
      have h1 := hall.count
      have h2 := hall.increasing
      have h3 := hall.total
      rw [layoutFrom_append, pairwise_append] at h2
      rw [totalLength_append, hone] at h3
      rw [length_append, length_singleton, packetMaxHeaderNum] at h1
      exact ⟨by omega, fun x hx => h2.2.2 x hx _ (mem_singleton_self _), by omega⟩
    · rintro ⟨h1, h2, h3⟩
      refine ⟨?_, ?_, ?_⟩
      · rw [length_append, length_singleton, packetMaxHeaderNum]
        omega
      · rw [layoutFrom_append, pairwise_append]
        refine ⟨hfit.increasing, pairwise_singleton _ _, ?_⟩
        intro x hx y hy
        rw [mem_singleton.mp hy]
        exact h2 x hx
      · rw [totalLength_append, hone]
        omega
  unfold packetIdentifyHeader
  rw [hu1, hu2]
  by_cases hall : Fits p (ds ++ [h])
  · rcases hiff.mp hall with ⟨h1, h2, h3⟩
    rw [if_pos hall, if_neg h1, if_neg h2, if_neg h3]
    simp only [laidOut, layoutFrom_append, layoutFrom]
  · rw [if_neg hall]
    by_cases h1 : (laidOut p ds).headers.length = packetMaxHeaderNum
    · rw [if_pos h1]
    by_cases h2 : (laidOut p ds).headers.getLast?.any
        (fun x => decide (x.start ≥ p.start + totalLength ds)) = true
    · rw [if_neg h1, if_pos h2]
    grind

theorem parsetreeMatchHeader_iff {ms : List HeaderMatch} :
    parsetreeMatchHeader ms p = true ↔ ∀ m ∈ ms, matchHolds m p = true := by
  induction ms with
  | nil => simp only [parsetreeMatchHeader, not_mem_nil, false_implies, implies_true]
  | cons m ms ih =>
    unfold parsetreeMatchHeader
    rw [forall_mem_cons, ← ih]
    cases matchHolds m p with
    | false => simp only [if_true, Bool.false_eq_true, false_and]
    | true => simp

/-- A match of the last header identified holds now if and only if it holds
when the headers behind it are there too. -/
theorem matchHolds_laidOut (p : Packet) (hs : List HeaderDescriptor) (h : HeaderDescriptor)
    {m : HeaderMatch} (hidx : m.field.headerIdx = ds.length) :
    matchHolds m (laidOut p (ds ++ [h])) = matchHolds m (laidOut p (ds ++ h :: hs)) := by
  unfold matchHolds
  congr 1
  refine compareField_congr rfl ?_
  simp [headerStart, laidOut, layoutFrom_append, layoutFrom, hidx, length_layoutFrom]

theorem headerIdx_of_indexed (hidx : MatchesIndexed (ds ++ h :: hs)) :
    ∀ m ∈ h.matchList, m.field.headerIdx = ds.length := by
  refine hidx ds.length h ?_
  rw [getElem?_append_right (Nat.le_refl _), Nat.sub_self, getElem?_cons_zero]

theorem packetClearHeaders_laidOut (hp : Received p) :
    packetClearHeaders (laidOut p ds) = p := by
  rcases p with ⟨buf, start, len, scratchLen, headers⟩
  have h1 := hp.headers
  have h2 := hp.scratchLen
  simp only at h1 h2
  simp only [packetClearHeaders, laidOut, h1, h2]

theorem u32_totalLength (hfit : Fits p (ds ++ [h])) :
    u32 (totalLength ds + headerLength h) = totalLength (ds ++ [h]) := by
  have hcount := hfit.count
  have hsmall := totalLength_le (ds ++ [h])
  rw [totalLength_append] at hsmall ⊢
  simp only [totalLength, map_cons, map_nil, sum_cons, sum_nil,
    Nat.add_zero, packetMaxHeaderNum] at hsmall hcount ⊢
  exact u32_of_lt (by omega)

section Loop

variable (p : Packet) (hp : Received p)

include hp

/-- A stream that selects the packet: the loop identifies the rest of its
headers. -/
theorem identifyStream_selects (ds : List HeaderDescriptor) (hidx : MatchesIndexed (ds ++ hs))
    (hsel : Selects p (ds ++ hs)) :
    identifyStream hs (totalLength ds) (laidOut p ds) =
      (true, totalLength (ds ++ hs), laidOut p (ds ++ hs)) := by
  -- `ds` are the headers identified so far, and the offset is their length
  induction hs generalizing ds with
  | nil => simp only [identifyStream, append_nil]
  | cons h hs ih =>
    have hsplit : ds ++ h :: hs = ds ++ [h] ++ hs := by
      rw [append_assoc, singleton_append]
    have hfit : Fits p (ds ++ [h]) := fits_append_left (by rw [← hsplit]; exact hsel.1)
    have hid := packetIdentifyHeader_laidOut hp h (fits_append_left hfit)
    rw [if_pos hfit] at hid
    have hmatch : parsetreeMatchHeader h.matchList (laidOut p (ds ++ [h])) = true := by
      rw [parsetreeMatchHeader_iff]
      intro m hm
      rw [matchHolds_laidOut p hs h (headerIdx_of_indexed hidx m hm)]
      exact hsel.2 h (mem_append_right _ mem_cons_self) m hm
    have hsum := u32_totalLength hfit
    rw [hsplit] at hidx hsel ⊢
    rw [← ih (ds ++ [h]) hidx hsel]
    simp only [headerLength] at hid hsum
    simp [identifyStream, hid, hmatch, hsum]

/-- A stream that does not select the packet: the loop gives up, and leaves the
packet as it was received. -/
theorem identifyStream_rejects (ds : List HeaderDescriptor) (hidx : MatchesIndexed (ds ++ hs))
    (hfit : Fits p ds)
    (hdone : ∀ h ∈ ds, ∀ m ∈ h.matchList, matchHolds m (laidOut p (ds ++ hs)) = true)
    (hsel : ¬ Selects p (ds ++ hs)) :
    (identifyStream hs (totalLength ds) (laidOut p ds)).1 = false ∧
      (identifyStream hs (totalLength ds) (laidOut p ds)).2.2 = p := by
  induction hs generalizing ds with
  | nil =>
    -- all headers were identified and all matches held, so the stream was selected
    exfalso
    refine hsel ⟨?_, ?_⟩
    · rw [append_nil]
      exact hfit
    · intro h hh
      rw [append_nil] at hh
      exact hdone h hh
  | cons h hs ih =>
    have hsplit : ds ++ h :: hs = ds ++ [h] ++ hs := by
      rw [append_assoc, singleton_append]
    have hid := packetIdentifyHeader_laidOut hp h hfit
    simp only [headerLength] at hid
    by_cases hnext : Fits p (ds ++ [h])
    · rw [if_pos hnext] at hid
      have hidxh := headerIdx_of_indexed hidx
      cases hmatch : parsetreeMatchHeader h.matchList (laidOut p (ds ++ [h])) with
      | false =>
        simp only [identifyStream, hid, Bool.true_eq_false, if_false, hmatch, if_true]
        exact ⟨trivial, packetClearHeaders_laidOut hp⟩
      | true =>
        have hsum := u32_totalLength hnext
        simp only [headerLength] at hsum
        simp only [identifyStream, hid, Bool.true_eq_false, if_false, hmatch, hsum]
        rw [hsplit] at hidx hsel hdone
        refine ih (ds ++ [h]) hidx hnext ?_ hsel
        intro h' hh' m hm
        -- the matches of the header just read hold with those to come as well
        rcases mem_append.mp hh' with hold | hnew
        · exact hdone h' hold m hm
        · rw [mem_singleton.mp hnew] at hm
          rw [← hsplit, ← matchHolds_laidOut p hs h (hidxh m hm)]
          exact (parsetreeMatchHeader_iff).mp hmatch m hm
    · rw [if_neg hnext] at hid
      simp only [identifyStream, hid, if_true]
      exact ⟨trivial, packetClearHeaders_laidOut hp⟩

end Loop

/-- A header of no length can only be the last one. There is none exactly when
the octet behind the headers is a later start than all of theirs. -/
theorem layoutFrom_start_lt_iff (start : Nat) (hs : List HeaderDescriptor)
    (hinc : (layoutFrom start hs).Pairwise fun x y => x.start < y.start) :
    (∀ x ∈ layoutFrom start hs, x.start < start + totalLength hs) ↔
      ∀ h ∈ hs, 0 < headerLength h := by
  induction hs generalizing start with
  | nil => simp only [layoutFrom, not_mem_nil, false_implies, implies_true]
  | cons h hs ih =>
    have htail := (pairwise_cons.mp hinc).2
    have hlen : totalLength (h :: hs) = headerLength h + totalLength hs := by
      simp [totalLength]
    rw [hlen, layoutFrom, forall_mem_cons, forall_mem_cons, ← ih _ htail,
      ← Nat.add_assoc]
    simp only [Nat.lt_add_right_iff_pos, Nat.add_assoc, and_congr_left_iff]
    intro hall
    rcases hs with _ | ⟨h', hs⟩
    · simp [totalLength]
    · -- the header behind this one starts later, so this one is not empty
      have hlt := (pairwise_cons.mp hinc).1 _ mem_cons_self
      simp only at hlt
      omega

theorem packetIdentifyHeader_payload (hp : Received p) (hfit : Fits p hs) :
    (packetIdentifyHeader (laidOut p hs) .payload (totalLength hs)
      ((laidOut p hs).len - totalLength hs)).2 = classified p hs := by
  have hstart := hp.start_le
  have hcount := hfit.count
  have hsmall := totalLength_le hs
  unfold packetMaxHeaderNum at hcount
  unfold packetBufLen at hstart
  have hu1 : u32 ((laidOut p hs).start + totalLength hs) = p.start + totalLength hs :=
    @u32_of_lt _ (by simp only [laidOut]; omega)
  have hu2 : ¬ u32 (totalLength hs + ((laidOut p hs).len - totalLength hs)) >
      (laidOut p hs).len := by
    have htotal := hfit.total
    have hmod := Nat.mod_le (totalLength hs + ((laidOut p hs).len - totalLength hs)) 4294967296
    simp only [u32, laidOut] at hmod ⊢
    omega
  -- the order check of the payload fails exactly behind a header of no length
  have hlast := (forall_start_lt_iff (laidOut p hs).headers (p.start + totalLength hs)
    hfit.increasing).symm.trans (layoutFrom_start_lt_iff p.start hs hfit.increasing)
  unfold packetIdentifyHeader classified payloadTail
  rw [hu1]
  by_cases hfull : (laidOut p hs).headers.length = packetMaxHeaderNum
  · have hlen : ¬ hs.length < packetMaxHeaderNum := by
      simp only [laidOut, length_layoutFrom] at hfull
      omega
    rw [if_pos hfull, if_neg (fun hand => hlen hand.1), append_nil, laidOut]
  · have hlen : hs.length < packetMaxHeaderNum := by
      simp only [laidOut, length_layoutFrom, packetMaxHeaderNum] at hfull ⊢
      omega
    rw [if_neg hfull]
    by_cases hpos : ∀ h ∈ hs, 0 < headerLength h
    · rw [if_neg (hlast.mpr hpos), if_neg hu2, if_pos ⟨hlen, hpos⟩]
      rfl
    · rw [if_pos (Classical.not_not.mp fun hno => hpos (hlast.mp hno)),
        if_neg (fun hand => hpos hand.2), append_nil, laidOut]

end Dnt
