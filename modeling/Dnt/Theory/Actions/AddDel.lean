import Dnt.Theory.Actions.Blocks

/-!
# Compiling Insertions and Deletions

The two actions that change the header list, with the actions that go with them. A
deletion comes last of its group, so everything in the group uses the old list. An
insertion comes first, and what follows uses the new list. Of the indices that were
read with the stage, the left-hand sides are fixed while the right-hand sides are
not.

## Main definitions

* `Right`: Actions that are right for packets with given headers.
* `AssignmentOk`: An assignment to a header of the new list that reads from the old one.

## Theorems

* `right_addedBlock`, `right_deletedBlock`: The block of an insertion is right, and so is
  that of a deletion.
* `clean_addedBlock_iff`: The former only reads in front just if its stage does.
-/

namespace Dnt

open List

/-! ## Actions in a row -/

/-- The actions are right for packets with headers `o`, and turn these into
`o'`. -/
structure Right (o : List Origin) (as : List ConfAction) (o' : List Origin) : Prop where
  accurate : Accurate o as
  reachable : Reachable o as
  current : as.foldl effect o = o'

section Row

variable {o o₁ o₂ : List Origin} {as bs : List ConfAction} {a : ConfAction}

theorem right_nil (o : List Origin) : Right o [] o :=
  ⟨accurate_nil o, reachable_nil o, rfl⟩

theorem Right.append (h : Right o as o₁) (hgoes : ∀ a ∈ as, goesOn a.body = true)
    (h' : Right o₁ bs o₂) : Right o (as ++ bs) o₂ := by
  have hcurrent := h.current
  subst hcurrent
  refine ⟨accurate_append h.accurate h'.accurate,
    reachable_append hgoes h.reachable h'.reachable, ?_⟩
  rw [foldl_append, h'.current]

theorem right_one (hrepl : ∀ d, a.body ≠ .repl d) (hrefs : RefsOk o a ↔ a.ReadsInFront) :
    Right o [a] (effect o a) :=
  ⟨accurate_singleton hrepl hrefs, reachable_singleton o hrepl, rfl⟩

theorem right_plain (hplain : plain a.body = true) (hrefs : RefsOk o a) : Right o [a] o := by
  have hleaf := leaf_of_plain hplain
  have hright := right_one (not_repl_of_leaf hleaf)
    (iff_of_true hrefs (readsInFront_of_leaf hleaf))
  rw [effect_of_plain o hplain] at hright
  exact hright

theorem generated_spec {a : ConfAction} (h : generated a.body = true) :
    goesOn a.body = true ∧ (∀ d, a.body ≠ .repl d) ∧ ∀ o, effect o a = o := by
  rcases a with ⟨text, auto, body⟩
  cases body with
  | edit | filteroam | metadata => exact ⟨rfl, fun _ => nofun, fun o => rfl⟩
  | _ => cases h

theorem right_generated (hgen : ∀ a ∈ as, generated a.body = true)
    (hrefs : ∀ a ∈ as, RefsOk o a ↔ a.ReadsInFront) : Right o as o := by
  induction as with
  | nil => exact right_nil o
  | cons a as ih =>
    rcases forall_mem_cons.mp hgen with ⟨ha, hgen⟩
    rcases forall_mem_cons.mp hrefs with ⟨hrefa, hrefs⟩
    rcases generated_spec ha with ⟨hgoes, hrepl, heffect⟩
    have hone := right_one hrepl hrefa
    rw [heffect] at hone
    exact hone.append (forall_mem_singleton.mpr hgoes) (ih hgen hrefs)

end Row

variable {dst : ConfHeader} {dstpos : Nat} {actionName : String}

theorem refsOk_of_field {headers : List ConfHeader} (tail : List Origin) {a : ConfAction}
    {f : FieldRef} (hrefs : a.refs = [f.ref]) (hf : FieldOk headers f) :
    RefsOk (originsOf headers tail) a := by
  intro r hr
  rw [hrefs] at hr
  rw [mem_singleton.mp hr]
  exact refers_of_fieldOk tail hf

/-! ## Next-header fields -/

/-- An assignment to a header of `headers'`. What it reads was looked up in
`headers`, which is the list before an insertion, or the same list. -/
def AssignmentOk (headers headers' : List ConfHeader) (x : ConfAssignment) : Prop :=
  FieldOk headers' x.lhs.field ∧ ∀ f ∈ x.rhs.fieldRef, FieldOk headers f

theorem assignmentOk_of_type {headers headers' : List ConfHeader} {type : ConfHeader}
    {x : ConfAssignment} (hdst : headers'[dstpos]? = some dst)
    (h : assignNexthdridFromHeaderType actionName dst dstpos type = some x) :
    AssignmentOk headers headers' x ∧ x.rhs.fieldRef = none := by
  unfold assignNexthdridFromHeaderType at h
  rcases Option.bind_eq_some_iff.mp h with ⟨getNexthdr, -, h⟩
  rcases Option.bind_eq_some_iff.mp h with ⟨dstf, -, h⟩
  rcases Option.bind_eq_some_iff.mp h with ⟨num, -, h⟩
  rcases Option.bind_eq_some_iff.mp h with ⟨value, -, h⟩
  rcases Option.bind_eq_some_iff.mp h with ⟨write, -, h⟩
  cases h
  exact ⟨⟨fieldOk_newHeaderfield dstf hdst, nofun⟩, rfl⟩

theorem assignmentOk_of_copy {headers headers' : List ConfHeader} {src : ConfHeader} {srcpos : Nat}
    {x : ConfAssignment} (hdst : headers'[dstpos]? = some dst) (hsrc : headers[srcpos]? = some src)
    (h : assignNexthdridCopyFromSrcheader actionName dst dstpos src srcpos = some x) :
    AssignmentOk headers headers' x ∧ ∀ f ∈ x.rhs.fieldRef, f.field.headerIdx = srcpos := by
  unfold assignNexthdridCopyFromSrcheader at h
  rcases Option.bind_eq_some_iff.mp h with ⟨-, -, h⟩
  rcases Option.bind_eq_some_iff.mp h with ⟨dstf, -, h⟩
  rcases Option.bind_eq_some_iff.mp h with ⟨srcf, -, h⟩
  rcases Option.bind_eq_some_iff.mp h with ⟨-, -, h⟩
  rcases Option.bind_eq_some_iff.mp h with ⟨write, -, h⟩
  cases h
  refine ⟨⟨fieldOk_newHeaderfield dstf hdst, fun f hf => ?_⟩, fun f hf => ?_⟩
  · cases hf
    exact fieldOk_newHeaderfield srcf hsrc
  · cases hf
    rfl

/-! ## Insertions -/

def ConfAssignment.ReadsBelow (x : ConfAssignment) (pos : Nat) : Prop :=
  ∀ f ∈ x.rhs.fieldRef, f.field.headerIdx < pos

/-- Assignments that the compiler makes up for an insertion. -/
def AutoOk (headers : List ConfHeader) (newheader : ConfHeader) (posIdx : Nat)
    (x : ConfAssignment) : Prop :=
  AssignmentOk headers (headers.insertIdx posIdx newheader) x ∧ x.ReadsBelow posIdx

section Add

variable {s : StageState} {a : ConfAction} {newheader : ConfHeader} {posIdx : Nat}
  {prevheader nextheader : Option ConfHeader} {assignments news : List ConfAssignment}

theorem readsBelow_of_none {x : ConfAssignment} (h : x.rhs.fieldRef = none) :
    x.ReadsBelow posIdx := by
  unfold ConfAssignment.ReadsBelow
  rw [h]
  exact nofun

theorem autoOk_defaultAssignment
    (hnew : (s.headers.insertIdx posIdx newheader)[posIdx]? = some newheader) :
    ∀ x ∈ defaultAssignment newheader posIdx, AutoOk s.headers newheader posIdx x := by
  intro x hx
  unfold defaultAssignment at hx
  dsimp only at hx
  split at hx
  · cases hx
  · rw [mem_singleton.mp hx]
    exact ⟨⟨⟨newheader, hnew, rfl⟩, nofun⟩, nofun⟩

theorem autoOk_nexthdrOfNew
    (hnew : (s.headers.insertIdx posIdx newheader)[posIdx]? = some newheader)
    (hprev : ∀ prev ∈ prevheader, posIdx ≠ 0 ∧ s.headers[posIdx - 1]? = some prev)
    (h : nexthdrOfNew s a assignments newheader posIdx prevheader nextheader = .ok news) :
    ∀ x ∈ news, AutoOk s.headers newheader posIdx x := by
  unfold nexthdrOfNew at h
  split at h
  · cases h
    exact forall_mem_nil _
  split at h
  · -- the user has set the field
    cases h
    exact forall_mem_nil _
  split at h
  · -- the type of the header behind the new one
    rcases bind_eq_ok.mp h with ⟨i, hi, h⟩
    cases h
    rcases assignmentOk_of_type hnew ((orThrow_eq_ok).mp hi) with ⟨hi, hrhs⟩
    exact forall_mem_singleton.mpr ⟨hi, readsBelow_of_none hrhs⟩
  · -- a copy from the header in front of it, which the insertion does not move
    rcases bind_eq_ok.mp h with ⟨prev, hprevheader, h⟩
    rcases bind_eq_ok.mp h with ⟨i, hi, h⟩
    cases h
    rcases hprev prev ((orThrow_eq_ok).mp hprevheader) with ⟨hzero, hget⟩
    rcases assignmentOk_of_copy hnew hget ((orThrow_eq_ok).mp hi) with ⟨hi, hrhs⟩
    refine forall_mem_singleton.mpr ⟨hi, fun f hf => ?_⟩
    rw [hrhs f hf]
    exact Nat.sub_one_lt hzero

theorem autoOk_nexthdrOfPrev
    (hprev : ∀ prev ∈ prevheader, (s.headers.insertIdx posIdx newheader)[posIdx - 1]? = some prev)
    (h : nexthdrOfPrev s a newheader posIdx prevheader = .ok news) :
    ∀ x ∈ news, AutoOk s.headers newheader posIdx x := by
  unfold nexthdrOfPrev at h
  split at h
  · cases h
    exact forall_mem_nil _
  · rename_i prev
    split at h
    · cases h
      exact forall_mem_nil _
    · rcases bind_eq_ok.mp h with ⟨i, hi, h⟩
      cases h
      rcases assignmentOk_of_type (hprev prev rfl) ((orThrow_eq_ok).mp hi) with ⟨hi, hrhs⟩
      exact forall_mem_singleton.mpr ⟨hi, readsBelow_of_none hrhs⟩

theorem autoOk_added {d : AddAction} {newname : String} {pos : ConfHeader}
    {writeseq : List ConfAction} {ofNew ofPrev : List ConfAssignment}
    (hle : addedIdx s d pos ≤ s.headers.length)
    (hadded : Added s a d newname pos writeseq ofNew ofPrev) :
    ∀ x ∈ ofPrev ++ ofNew ++ defaultAssignment (addedHeader s d newname) (addedIdx s d pos),
      AutoOk s.headers (addedHeader s d newname) (addedIdx s d pos) x := by
  have hofNew := hadded.ofNew_eq
  have hofPrev := hadded.ofPrev_eq
  generalize addedIdx s d pos = posIdx at *
  generalize addedHeader s d newname = newheader at *
  have hnew : (s.headers.insertIdx posIdx newheader)[posIdx]? = some newheader := by
    rw [getElem?_insertIdx_self, if_pos hle]
  -- the header in front of the new one, in the old list and in the new one
  have hprev : ∀ prev ∈ (if posIdx = 0 then none else s.headers[posIdx - 1]?),
      posIdx ≠ 0 ∧ s.headers[posIdx - 1]? = some prev := by grind
  have hprev' : ∀ prev ∈ (if posIdx = 0 then none else s.headers[posIdx - 1]?),
      (s.headers.insertIdx posIdx newheader)[posIdx - 1]? = some prev := by grind
  simp only [forall_mem_append]
  exact ⟨⟨autoOk_nexthdrOfPrev hprev' hofPrev, autoOk_nexthdrOfNew hnew hprev hofNew⟩,
    autoOk_defaultAssignment hnew⟩

end Add

variable {edits : List ConfAssignment}

theorem reads_of_addAssigned {env : CompileEnv} {headers : List ConfHeader} {fresh : Nat}
    {d : AddAction} {x : ConfAssignment} {f : ProtocolField} (hok : HeadersOk headers fresh)
    (h : AddAssigned env headers d x f) : (∀ f ∈ x.rhs.fieldRef, FieldOk headers f) ∧
      x.rhs.fieldRef.map (fun f => f.field.headerIdx) = readsHeader headers x.text := by
  rcases h.rhs with ⟨lhs, text, hparse, hrhs⟩
  refine ⟨fieldOk_processAssignmentRhs hok hrhs, ?_⟩
  rw [headerIdx_processAssignmentRhs hrhs]
  simp only [readsHeader, hparse]

theorem readsBelow_fixHeaderIdx_iff (st : AddStage) (newheader : ConfHeader)
    (assignments : List ConfAssignment)
    (hassigns : st.assigns = assignments.map ConfAssignment.text) (hrhs : ∀ x ∈ assignments,
      x.rhs.fieldRef.map (fun f => f.field.headerIdx) = readsHeader st.headers x.text) :
    (∀ x ∈ assignments.map (fixHeaderIdx st.position newheader), x.ReadsBelow st.position) ↔
      st.ReadsInFront := by
  unfold AddStage.ReadsInFront
  rw [hassigns, forall_mem_map, forall_mem_map]
  refine forall₂_congr fun x hx => ?_
  rw [← hrhs x hx]
  -- fixing the left-hand side leaves the right-hand side alone
  simp [ConfAssignment.ReadsBelow, fixHeaderIdx, Option.mem_def, and_imp, forall_apply_eq_imp_iff₂]

theorem refsOk_edit {headers : List ConfHeader} (tail : List Origin) (text : String) (auto : Bool)
    {edits : List ConfAssignment} (addedAt : Option Nat)
    (hedits : ∀ x ∈ edits, AssignmentOk headers headers x) :
    RefsOk (originsOf headers tail) ⟨text, auto, .edit edits addedAt⟩ := by
  intro r hr
  rcases mem_flatMap.mp hr with ⟨x, hx, hr⟩
  rcases mem_cons.mp hr with rfl | hr
  · exact refers_of_fieldOk tail (hedits x hx).1
  · rw [Option.mem_toList, Option.map_eq_some_iff] at hr
    rcases hr with ⟨f, hf, rfl⟩
    exact refers_of_fieldOk tail ((hedits x hx).2 f hf)

/-- Assignments that follow an insertion have correct indices exactly if they
read in front of it. -/
theorem refsOk_added_iff {headers : List ConfHeader} {fresh : Nat} (tail : List Origin) {pos : Nat}
    {newheader : ConfHeader} {text : String} (hok : HeadersOk headers fresh)
    (hfresh : newheader.tag = fresh) (hpos : pos ≤ headers.length)
    (hedits : ∀ x ∈ edits, AssignmentOk headers (headers.insertIdx pos newheader) x) :
    RefsOk (originsOf (headers.insertIdx pos newheader) tail) ⟨text, true, .edit edits (some pos)⟩ ↔
      ConfAction.ReadsInFront ⟨text, true, .edit edits (some pos)⟩ := by
  -- left-hand sides were fixed, only right-hand sides can be off
  have hiff : ∀ x ∈ edits, ∀ f ∈ x.rhs.fieldRef,
      (Refers (originsOf (headers.insertIdx pos newheader) tail) f.ref ↔
        f.field.headerIdx < pos) := by
    intro x hx f hf
    exact refers_insertIdx_iff tail hok hfresh hpos ((hedits x hx).2 f hf)
  simp only [RefsOk, ConfAction.refs, ConfAction.ReadsInFront, mem_flatMap]
  constructor
  · intro hrefs x hx f hf
    refine (hiff x hx f hf).mp (hrefs f.ref ⟨x, hx, ?_⟩)
    rw [ConfAssignment.refs, Option.mem_def.mp hf]
    exact mem_cons_of_mem _ (mem_singleton_self _)
  · rintro hfront r ⟨x, hx, hr⟩
    rcases mem_cons.mp hr with rfl | hr
    · exact refers_of_fieldOk tail (hedits x hx).1
    · rw [Option.mem_toList, Option.map_eq_some_iff] at hr
      rcases hr with ⟨f, hf, rfl⟩
      exact (hiff x hx f hf).mpr (hfront x hx f hf)

section Added

variable {env : CompileEnv} {s : StageState} {a : ConfAction} {d : AddAction} {newname : String}
  {pos : ConfHeader} {writeseq : List ConfAction} {ofNew ofPrev : List ConfAssignment}

theorem assignmentOk_addedEdits (hok : HeadersOk s.headers s.fresh)
    (hknown : Known env s.headers (.add d)) (hle : addedIdx s d pos ≤ s.headers.length)
    (hadded : Added s a d newname pos writeseq ofNew ofPrev) :
    ∀ x ∈ addedEdits s d newname pos ofNew ofPrev, AssignmentOk s.headers
      (s.headers.insertIdx (addedIdx s d pos) (addedHeader s d newname)) x := by
  rw [addedEdits, append_assoc, append_assoc, ← append_assoc ofPrev]
  refine forall_mem_append.mpr ⟨?_, fun x hx =>
    (autoOk_added hle hadded x hx).1⟩
  rw [forall_mem_map]
  intro x hx
  rcases hknown.2.2 x hx with ⟨f, hf⟩
  refine ⟨⟨addedHeader s d newname, ?_, rfl⟩,
    (reads_of_addAssigned hok hf).1⟩
  exact (getElem?_insertIdx_self).trans (if_pos hle)

theorem right_addedBlock (tail : List Origin) (hok : HeadersOk s.headers s.fresh)
    (hknown : Known env s.headers (.add d))
    (hadded : Added s a d newname pos writeseq ofNew ofPrev) :
    Right (originsOf s.headers tail) (addedBlock s a d newname pos writeseq ofNew ofPrev)
      (originsOf (s.headers.insertIdx (addedIdx s d pos) (addedHeader s d newname)) tail) := by
  have hle := addedIdx_le hok hknown hadded
  have hedits := assignmentOk_addedEdits hok hknown hle hadded
  have hnew : (s.headers.insertIdx (addedIdx s d pos)
      (addedHeader s d newname))[addedIdx s d pos]? = some (addedHeader s d newname) := by
    rw [getElem?_insertIdx_self, if_pos hle]
  have hadd : Right (originsOf s.headers tail) [{ a with body := .add (addedAction s d pos) }]
      (originsOf (s.headers.insertIdx (addedIdx s d pos) (addedHeader s d newname)) tail) := by
    rw [originsOf_insertIdx tail _ hle]
    exact right_one (fun _ => nofun)
      (iff_of_true (forall_mem_nil _) (readsInFront_of_leaf rfl))
  refine hadd.append (forall_mem_singleton.mpr rfl)
    (right_generated (generated_added hadded) ?_)
  refine forall_mem_append.mpr ⟨fun b hb => ?_, ?_⟩
  · -- a field of the new header
    rcases metadata_added hadded b hb with ⟨op, f, hbody⟩
    refine iff_of_true (refsOk_of_field tail ?_ (fieldOk_newHeaderfield f hnew))
      (readsInFront_of_leaf (by rw [hbody]; rfl))
    rw [ConfAction.refs, hbody]
    rfl
  · unfold addedEdit
    split
    · exact forall_mem_nil _
    · exact forall_mem_singleton.mpr (refsOk_added_iff tail hok rfl
        hle fun x hx => hedits x (mem_reverse.mp hx))

theorem clean_addedBlock_iff (hok : HeadersOk s.headers s.fresh)
    (hknown : Known env s.headers (.add d))
    (hadded : Added s a d newname pos writeseq ofNew ofPrev) :
    Clean (addedBlock s a d newname pos writeseq ofNew ofPrev) ↔
      (⟨s.headers, pos, d.beforeafter, d.assignments.map ConfAssignment.text⟩ :
        AddStage).ReadsInFront := by
  have hle := addedIdx_le hok hknown hadded
  have hautos := autoOk_added hle hadded
  have hleaf : ∀ b ∈ { a with body := .add (addedAction s d pos) } ::
      (writeseq ++ writetsForNew a (addedHeader s d newname) (addedIdx s d pos)),
      leaf b.body = true := by
    refine forall_mem_cons.mpr ⟨rfl, fun b hb => ?_⟩
    rcases metadata_added hadded b hb with ⟨op, f, hbody⟩
    rw [hbody]
    rfl
  have hedit : Clean (addedEdit a (addedIdx s d pos) (addedEdits s d newname pos ofNew ofPrev)) ↔
      ∀ x ∈ addedEdits s d newname pos ofNew ofPrev, x.ReadsBelow (addedIdx s d pos) := by
    unfold addedEdit
    split
    · rename_i hempty
      rw [isEmpty_iff.mp hempty]
      exact iff_of_true clean_nil (forall_mem_nil _)
    · rw [@clean_cons_iff _ [] (fun d hno => by cases hno), and_iff_left clean_nil]
      simp [ConfAction.ReadsInFront, ConfAssignment.ReadsBelow]
  rw [addedBlock, ← cons_append, clean_append_iff, and_iff_right (@clean_of_leaves _ hleaf),
    hedit, addedEdits, append_assoc, append_assoc, ← append_assoc ofPrev,
    forall_mem_append, and_iff_left fun x hx => (hautos x hx).2]
  refine readsBelow_fixHeaderIdx_iff
    ⟨s.headers, pos, d.beforeafter, d.assignments.map ConfAssignment.text⟩ _ _ rfl ?_
  intro x hx
  rcases hknown.2.2 x hx with ⟨f, hf⟩
  exact (reads_of_addAssigned hok hf).2

end Added

/-! ## Deletions -/

theorem assignmentOk_nexthdrOfDel {s : StageState} {a : ConfAction} {delh : ConfHeader} {idx : Nat}
    {news : List ConfAssignment} (hdel : s.headers[idx]? = some delh)
    (h : nexthdrOfDel s a delh idx = .ok news) :
    ∀ x ∈ news, AssignmentOk s.headers s.headers x := by
  have hprev : ∀ prev, (if idx = 0 then none else s.headers[idx - 1]?) = some prev →
      s.headers[idx - 1]? = some prev := by
    intro prev hprev
    split at hprev
    · cases hprev
    · exact hprev
  -- the edit runs in front of the deletion, so its indices are those of `s.headers`
  unfold nexthdrOfDel at h
  split at h
  · cases h
    exact forall_mem_nil _
  · rename_i prev hsome
    split at h
    · cases h
      exact forall_mem_nil _
    split at h
    · -- the type of the header behind the deleted one is a constant
      rcases bind_eq_ok.mp h with ⟨i, hi, h⟩
      cases h
      exact forall_mem_singleton.mpr
        (assignmentOk_of_type (hprev prev hsome) ((orThrow_eq_ok).mp hi)).1
    · -- the last header is deleted, and is still there to be read
      rcases bind_eq_ok.mp h with ⟨i, hi, h⟩
      cases h
      exact forall_mem_singleton.mpr
        (assignmentOk_of_copy (hprev prev hsome) hdel ((orThrow_eq_ok).mp hi)).1

/-- The actions of a deletion. Everything but the deletion itself sees the old
list. -/
theorem right_deletedBlock {s : StageState} {a : ConfAction} {d : DelAction} {delh : ConfHeader}
    (tail : List Origin) (hok : HeadersOk s.headers s.fresh) (hdelh : delh ∈ s.headers)
    (hhdr : d.hdr = some delh)
    (hedits : nexthdrOfDel s a delh (headerIndex s.headers delh) = .ok edits) :
    Right (originsOf s.headers tail) (deletedBlock s a d delh edits)
      (originsOf (s.headers.eraseIdx (headerIndex s.headers delh)) tail) := by
  have hget := @getElem?_headerIndex delh s.headers s.fresh hok hdelh
  have hgen := @generated_deleted a edits delh (headerIndex s.headers delh)
  have hfront : Right (originsOf s.headers tail)
      (filterForDel delh (headerIndex s.headers delh) ++ deletedEdit a edits)
      (originsOf s.headers tail) := by
    refine right_generated hgen (forall_mem_append.mpr ⟨?_, ?_⟩)
    · unfold filterForDel
      split
      · exact forall_mem_nil _
      · rename_i f hf
        exact forall_mem_singleton.mpr (iff_of_true (refsOk_of_field tail rfl
          (@fieldOk_newHeaderfield delh _ _ f hget)) (@readsInFront_of_leaf _ rfl))
    · unfold deletedEdit
      split
      · exact forall_mem_nil _
      · exact forall_mem_singleton.mpr (iff_of_true (refsOk_edit tail _ true
          none (assignmentOk_nexthdrOfDel hget hedits))
          (@readsInFront_of_leaf _ rfl))
  refine hfront.append (fun b hb => (generated_spec (hgen b hb)).1) ?_
  rw [@originsOf_eraseIdx s.headers _ tail (List.getElem?_eq_some_iff.mp hget).1]
  refine right_one (fun _ => nofun) (iff_of_true ?_ (@readsInFront_of_leaf _ rfl))
  intro r hr
  simp only [ConfAction.refs, DelAction.refs, hhdr, Option.map_some, Option.toList_some,
    mem_singleton] at hr
  rw [hr]
  exact Or.inl (@getElem?_originsOf delh s.headers _ tail hget)

end Dnt
