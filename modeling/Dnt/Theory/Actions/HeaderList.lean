import Mathlib.Data.List.Nodup
import Dnt.Theory.Actions.References

/-!
# The Header List of the Compiler

Indices into the header list of the compiler, and what inserting and deleting
headers does to them. The origins of a packet's headers are this list with the payload
behind it.

## Main definitions

* `HeadersOk`: A pointer or a tag stands for one position.
* `FieldOk`: The header at the index of a field is the one it should be.

## Theorems

* `refers_insertIdx_iff`: After an insertion, an index from before leads to the same
  header exactly if it is in front of the new one.
-/

namespace Dnt

open List

variable {h : ConfHeader} {f : FieldRef} {headers : List ConfHeader} {idx fresh : Nat}

/-- The headers have different addresses and tags, all of them used up. -/
structure HeadersOk (headers : List ConfHeader) (fresh : Nat) : Prop where
  addrs : (headers.map ConfHeader.addr).Nodup
  tags : (headers.map ConfHeader.tag).Nodup
  addr_lt : ∀ h ∈ headers, h.addr < fresh
  tag_lt : ∀ h ∈ headers, h.tag < fresh

/-- The header at the index of the field is the one it should be. -/
def FieldOk (headers : List ConfHeader) (f : FieldRef) : Prop :=
  ∃ h, headers[f.field.headerIdx]? = some h ∧ h.tag = f.denotes

theorem HeadersOk.mono {fresh' : Nat} (h : HeadersOk headers fresh) (hle : fresh ≤ fresh') :
    HeadersOk headers fresh' :=
  { addrs := h.addrs
    tags := h.tags
    addr_lt := fun d hd => Nat.lt_of_lt_of_le (h.addr_lt d hd) hle
    tag_lt := fun d hd => Nat.lt_of_lt_of_le (h.tag_lt d hd) hle }

theorem getElem?_headerIndex (hok : HeadersOk headers fresh) (hmem : h ∈ headers) :
    headers[headerIndex headers h]? = some h := by
  have hlt : headerIndex headers h < headers.length :=
    findIdx_lt_length_of_exists ⟨h, hmem, decide_eq_true rfl⟩
  have haddr : (headers.get ⟨headerIndex headers h, hlt⟩).addr = h.addr :=
    of_decide_eq_true (findIdx_getElem (w := hlt))
  have heq := inj_on_of_nodup_map hok.addrs (get_mem headers _) hmem haddr
  rw [getElem?_eq_getElem hlt]
  exact congrArg some heq

theorem headerIndex_lt (hok : HeadersOk headers fresh) (hmem : h ∈ headers) :
    headerIndex headers h < headers.length :=
  (List.getElem?_eq_some_iff.mp (getElem?_headerIndex hok hmem)).1

theorem fieldOk_newHeaderfield (f : ProtocolField) (hidx : headers[idx]? = some h) :
    FieldOk headers (newHeaderfield idx h f) :=
  ⟨h, hidx, rfl⟩

theorem fieldOk_headerGetFieldOfType {type : ProtocolFieldType} (hidx : headers[idx]? = some h)
    (hf : headerGetFieldOfType h idx type = some f) : FieldOk headers f := by
  rcases Option.map_eq_some_iff.mp hf with ⟨pf, -, rfl⟩
  exact fieldOk_newHeaderfield pf hidx

variable (tail : List Origin)

theorem getElem?_originsOf (hidx : headers[idx]? = some h) :
    (originsOf headers tail)[idx]? = some (.header h.tag) := by
  have hlt := (List.getElem?_eq_some_iff.mp hidx).1
  rw [originsOf, List.getElem?_append_left (by rw [List.length_map]; exact hlt),
    getElem?_map, hidx, Option.map_some]

theorem refers_of_fieldOk (hf : FieldOk headers f) :
    Refers (originsOf headers tail) f.ref := by
  rcases hf with ⟨h, hidx, htag⟩
  refine Or.inl ?_
  rw [FieldRef.ref, getElem?_originsOf tail hidx, htag]

theorem originsOf_insertIdx (pos : Nat) (hpos : pos ≤ headers.length) :
    originsOf (headers.insertIdx pos h) tail =
      (originsOf headers tail).insertIdx pos (.header h.tag) := by
  induction headers generalizing pos with
  | nil =>
    rw [Nat.le_zero.mp hpos]
    rfl
  | cons d headers ih =>
    cases pos with
    | zero => rfl
    | succ pos =>
      have hrest := ih pos (Nat.le_of_succ_le_succ hpos)
      simp only [originsOf, insertIdx_succ_cons, map_cons,
        cons_append] at hrest ⊢
      rw [hrest]

theorem originsOf_eraseIdx (hidx : idx < headers.length) :
    originsOf (headers.eraseIdx idx) tail = (originsOf headers tail).eraseIdx idx := by
  rw [originsOf, originsOf, eraseIdx_append_of_lt_length (by rw [List.length_map]; exact hidx),
    eraseIdx_map]

/-- An insertion moves the headers at its position and behind it away from
their indices. -/
theorem refers_insertIdx_iff {pos : Nat} (hok : HeadersOk headers fresh)
    (hfresh : h.tag = fresh) (hpos : pos ≤ headers.length) (hf : FieldOk headers f) :
    Refers (originsOf (headers.insertIdx pos h) tail) f.ref ↔ f.field.headerIdx < pos := by
  rcases hf with ⟨d, hidx, htag⟩
  have hlt := (List.getElem?_eq_some_iff.mp hidx).1
  have hmem := List.mem_of_getElem? hidx
  have hrefers : Refers (originsOf (headers.insertIdx pos h) tail) f.ref ↔
      (originsOf (headers.insertIdx pos h) tail)[f.field.headerIdx]? =
        some (.header f.denotes) := by
    simp [Refers, FieldRef.ref]
  rw [hrefers, ← htag]
  by_cases hfront : f.field.headerIdx < pos
  · refine iff_of_true ?_ hfront
    rw [getElem?_originsOf tail (by rw [getElem?_insertIdx_of_lt hfront]; exact hidx)]
  refine iff_of_false ?_ hfront
  intro hsome
  by_cases hself : f.field.headerIdx = pos
  · -- the new header itself, which has a new tag
    rw [getElem?_originsOf tail (by
      rw [hself, getElem?_insertIdx_self, if_pos hpos])] at hsome
    have hnew := hok.tag_lt d hmem
    simp only [Option.some.injEq, Origin.header.injEq] at hsome
    omega
  · -- the header in front of the right one, which has another tag
    have hbehind : pos < f.field.headerIdx := by omega
    have hprev : f.field.headerIdx - 1 < headers.length := by omega
    rw [getElem?_originsOf tail (by
      rw [getElem?_insertIdx_of_gt hbehind]
      exact getElem?_eq_getElem hprev)] at hsome
    simp only [Option.some.injEq, Origin.header.injEq] at hsome
    have heq : headers.get ⟨f.field.headerIdx - 1, hprev⟩ = d :=
      inj_on_of_nodup_map hok.tags (get_mem headers _) hmem hsome
    have hd : headers.get ⟨f.field.headerIdx, hlt⟩ = d := (List.getElem?_eq_some_iff.mp hidx).2
    have hinj := List.Nodup.of_map _ hok.tags
    have hfin := (List.Nodup.get_inj_iff hinj).mp (heq.trans hd.symm)
    simp only [Fin.mk.injEq] at hfin
    omega

theorem headersOk_insertIdx {pos : Nat} {desc : HeaderDescriptor} (hok : HeadersOk headers fresh)
    (hpos : pos ≤ headers.length) :
    HeadersOk (headers.insertIdx pos ⟨fresh, fresh, desc⟩) (fresh + 1) := by
  -- nothing here depends on the order
  have hperm := perm_insertIdx (⟨fresh, fresh, desc⟩ : ConfHeader) headers hpos
  refine ⟨?_, ?_, ?_, ?_⟩
  · rw [(hperm.map ConfHeader.addr).nodup_iff, map_cons, nodup_cons]
    refine ⟨fun hmem => ?_, hok.addrs⟩
    rcases mem_map.mp hmem with ⟨d, hd, haddr⟩
    have hlt := hok.addr_lt d hd
    simp only at haddr
    omega
  · rw [(hperm.map ConfHeader.tag).nodup_iff, map_cons, nodup_cons]
    refine ⟨fun hmem => ?_, hok.tags⟩
    rcases mem_map.mp hmem with ⟨d, hd, htag⟩
    have hlt := hok.tag_lt d hd
    simp only at htag
    omega
  · intro d hd
    rcases mem_cons.mp (hperm.mem_iff.mp hd) with rfl | hold
    · exact Nat.lt_succ_self _
    · exact Nat.lt_succ_of_lt (hok.addr_lt d hold)
  · intro d hd
    rcases mem_cons.mp (hperm.mem_iff.mp hd) with rfl | hold
    · exact Nat.lt_succ_self _
    · exact Nat.lt_succ_of_lt (hok.tag_lt d hold)

theorem headersOk_eraseIdx (hok : HeadersOk headers fresh) :
    HeadersOk (headers.eraseIdx idx) fresh := by
  have hsub := eraseIdx_sublist headers idx
  exact
    { addrs := hok.addrs.sublist (hsub.map _)
      tags := hok.tags.sublist (hsub.map _)
      addr_lt := fun d hd => hok.addr_lt d (hsub.subset hd)
      tag_lt := fun d hd => hok.tag_lt d (hsub.subset hd) }

theorem tags_copyHeaderList (headers : List ConfHeader) (fresh : Nat) :
    (copyHeaderList headers fresh).map ConfHeader.tag = headers.map ConfHeader.tag := by
  induction headers generalizing fresh with
  | nil => rfl
  | cons h headers ih => simp [copyHeaderList, ih]

theorem addrs_copyHeaderList (headers : List ConfHeader) (fresh : Nat) :
    (copyHeaderList headers fresh).map ConfHeader.addr = List.range' fresh headers.length := by
  induction headers generalizing fresh with
  | nil => rfl
  | cons h headers ih =>
    simp only [copyHeaderList, map_cons, ih, length_cons, List.range'_succ]

theorem headersOk_copyHeaderList (hok : HeadersOk headers fresh) :
    HeadersOk (copyHeaderList headers fresh) (fresh + headers.length) := by
  refine ⟨?_, ?_, ?_, ?_⟩
  · rw [addrs_copyHeaderList]
    exact nodup_range'
  · rw [tags_copyHeaderList]
    exact hok.tags
  · intro d hd
    have hmem := mem_map_of_mem (f := ConfHeader.addr) hd
    rw [addrs_copyHeaderList, mem_range'_1] at hmem
    exact hmem.2
  · -- tags are not new, so the bound is the old one
    intro d hd
    have hmem := mem_map_of_mem (f := ConfHeader.tag) hd
    rw [tags_copyHeaderList] at hmem
    rcases mem_map.mp hmem with ⟨h, hh, htag⟩
    have hlt := hok.tag_lt h hh
    omega

theorem originsOf_eq_of_tags {headers' : List ConfHeader}
    (h : headers'.map ConfHeader.tag = headers.map ConfHeader.tag) :
    originsOf headers' tail = originsOf headers tail := by
  have hmap (l : List ConfHeader) : (l.map fun h => Origin.header h.tag) =
      (l.map ConfHeader.tag).map Origin.header := by
    rw [map_map]
    rfl
  rw [originsOf, originsOf, hmap, hmap, h]

theorem addrs_tagHeaders (headers : List HeaderDescriptor) (n : Nat) :
    (tagHeaders headers n).map ConfHeader.addr = List.range' n headers.length := by
  induction headers generalizing n with
  | nil => rfl
  | cons d headers ih =>
    simp only [tagHeaders, map_cons, ih, length_cons, List.range'_succ]

theorem tags_tagHeaders (headers : List HeaderDescriptor) (n : Nat) :
    (tagHeaders headers n).map ConfHeader.tag = List.range' n headers.length := by
  induction headers generalizing n with
  | nil => rfl
  | cons d headers ih =>
    simp only [tagHeaders, map_cons, ih, length_cons, List.range'_succ]

theorem headersOk_tagHeaders (headers : List HeaderDescriptor) :
    HeadersOk (tagHeaders headers 0) headers.length := by
  refine ⟨?_, ?_, ?_, ?_⟩
  · rw [addrs_tagHeaders]
    exact nodup_range'
  · rw [tags_tagHeaders]
    exact nodup_range'
  · intro d hd
    have hmem := mem_map_of_mem (f := ConfHeader.addr) hd
    rw [addrs_tagHeaders, mem_range'_1] at hmem
    omega
  · intro d hd
    have hmem := mem_map_of_mem (f := ConfHeader.tag) hd
    rw [tags_tagHeaders, mem_range'_1] at hmem
    omega

end Dnt
