import Dnt.Theory.Actions.Visits

/-!
# Header References of Actions

The header indices an action uses, each with the header it is meant to lead to.
Actions that an add action brings along are executed when the new header is
there. The right-hand sides of its assignments were given their indices before.
They still lead to the right header if that one is in front of the new one.

## Main definitions

* `HeaderRef`, `Refers`: An index with its header, and that it leads there.
* `ReadsInFront`: The action, or its stage, does not read behind a new header.
* `Accurate`: The indices of an action are right just if it reads in front.

## Theorems

* `accurate_append`: Pipelines put together are accurate if both are, the second one for the
  headers that the first one leaves.
-/

namespace Dnt

variable {a : ConfAction} {o : List Origin}

structure HeaderRef where
  idx : Nat
  origin : Origin
  deriving DecidableEq, Repr

def FieldRef.ref (f : FieldRef) : HeaderRef :=
  ⟨f.field.headerIdx, .header f.denotes⟩

def ConfRhs.fieldRef : ConfRhs → Option FieldRef
  | .field _ _ ref => some ref
  | .const _ _ => none
  | .iface _ _ _ _ => none

def ConfAssignment.refs (x : ConfAssignment) : List HeaderRef :=
  x.lhs.field.ref :: (x.rhs.fieldRef.map FieldRef.ref).toList

/-- The index of an IP header is used if the checksum covers a pseudo header. -/
def ChecksumAction.refs (d : ChecksumAction) : List HeaderRef :=
  (d.field.map FieldRef.ref).toList ++
    if hasPseudoHeader d.hdrProto = true then [⟨d.ipIdx, .header d.ipTag⟩] else []

/-- The header a length goes up to is the payload if there is no other. -/
def SetlengthAction.refs (d : SetlengthAction) : List HeaderRef :=
  match d.payloadTag with
  | some tag => (d.field.map FieldRef.ref).toList ++ [⟨d.payloadIdx, .header tag⟩]
  | none => (d.field.map FieldRef.ref).toList ++ [⟨d.payloadIdx, .payload⟩]

def DelAction.refs (d : DelAction) : List HeaderRef :=
  (d.hdr.map fun h => ⟨d.idx, .header h.tag⟩).toList

/-- The indices that executing an action looks up in the packet. -/
def ConfAction.refs (a : ConfAction) : List HeaderRef :=
  match a.body with
  | .checksum d | .verify d => d.refs
  | .del d => d.refs
  | .edit assignments _ => assignments.flatMap ConfAssignment.refs
  | .filteroam field => [field.ref]
  | .metadata _ field => (field.map FieldRef.ref).toList
  | .setlength d => d.refs
  | .ttlreduce d => (d.field.map FieldRef.ref).toList ++ (d.csum.map FieldRef.ref).toList
  | _ => []

/-- The index leads to the header it should. There may be no payload. -/
def Refers (origins : List Origin) (r : HeaderRef) : Prop :=
  origins[r.idx]? = some r.origin ∨ (r.origin = .payload ∧ .payload ∉ origins)

instance (origins : List Origin) (r : HeaderRef) : Decidable (Refers origins r) := by
  unfold Refers
  infer_instance

/-- If the action assigns to a header that was added just before, it only reads
headers in front of it. -/
def ConfAction.ReadsInFront (a : ConfAction) : Prop :=
  match a.body with
  | .edit assignments (some pos) =>
    ∀ x ∈ assignments, ∀ f ∈ x.rhs.fieldRef, f.field.headerIdx < pos
  | _ => True

/-- The header that a right-hand side names, by its position in the list. -/
def rhsHeader (headers : List ConfHeader) (rhs : String) : Option Nat :=
  match parseFieldname rhs with
  | none => none
  | some (key, _) => (headerListFindByName headers key).map fun found => headerIndex headers found.1

def readsHeader (headers : List ConfHeader) (assign : String) : Option Nat :=
  match parseAssignment assign with
  | none => none
  | some (_, rhs) => rhsHeader headers rhs

def AddStage.position (st : AddStage) : Nat :=
  if st.beforeafter = .after then headerIndex st.headers st.pos + 1
  else headerIndex st.headers st.pos

/-- The headers that an add stage names in its assignments are all in front of
the one it adds. -/
def AddStage.ReadsInFront (st : AddStage) : Prop :=
  ∀ x ∈ st.assigns, ∀ i ∈ readsHeader st.headers x, i < st.position

instance (st : AddStage) : Decidable st.ReadsInFront := by
  unfold AddStage.ReadsInFront
  infer_instance

instance (a : ConfAction) : Decidable a.ReadsInFront := by
  unfold ConfAction.ReadsInFront
  split <;> infer_instance

/-! ## Pipelines that read in front -/

/-- Every action, in branches too, reads in front of what it adds. -/
def Clean (actions : List ConfAction) : Prop :=
  ∀ b, Within actions b → b.ReadsInFront

theorem clean_nil : Clean [] :=
  fun b h => absurd h (not_within_nil b)

theorem clean_append_iff (before behind : List ConfAction) :
    Clean (before ++ behind) ↔ Clean before ∧ Clean behind := by
  simp only [Clean, within_append_iff, or_imp, forall_and]

/-- Actions with no branches that do not assign to a header added before. -/
def leaf : ActionBody ConfAction → Bool
  | .repl _ | .edit _ (some _) => false
  | _ => true

theorem not_repl_of_leaf (h : leaf a.body = true) : ∀ d, a.body ≠ .repl d := by
  intro d hbody
  rw [hbody] at h
  cases h

theorem readsInFront_of_leaf (h : leaf a.body = true) : a.ReadsInFront := by
  unfold ConfAction.ReadsInFront
  split
  · rename_i hbody
    rw [hbody] at h
    cases h
  · trivial

theorem clean_cons_iff (rest : List ConfAction) (hrepl : ∀ d, a.body ≠ .repl d) :
    Clean (a :: rest) ↔ a.ReadsInFront ∧ Clean rest := by
  simp only [Clean, within_cons_iff _ rest hrepl, or_imp, forall_and, forall_eq]

theorem clean_cons_leaf (rest : List ConfAction) (h : leaf a.body = true) :
    Clean (a :: rest) ↔ Clean rest := by
  rw [clean_cons_iff rest (not_repl_of_leaf h)]
  exact and_iff_right (readsInFront_of_leaf h)

theorem clean_cons_repl (rest : List ConfAction) {d : ReplAction ConfAction}
    (hbody : a.body = .repl d) :
    Clean (a :: rest) ↔ (∀ br ∈ d.pipelines, Clean br.actions) ∧ Clean rest := by
  constructor
  · intro h
    refine ⟨?_, ?_⟩
    · intro br hbr b hb
      exact h b (.branch _ a b d br List.mem_cons_self hbody hbr hb)
    · intro b hb
      exact h b (within_mono (fun _ hc => List.mem_cons_of_mem _ hc) hb)
  · rintro ⟨hbranches, hrest⟩ b hb
    cases hb with
    | here _ _ hb =>
      rcases List.mem_cons.mp hb with rfl | hb
      · simp only [ConfAction.ReadsInFront, hbody]
      · exact hrest b (.here _ _ hb)
    | branch _ c _ d' br hc hbody' hbr hin =>
      -- a branch of this action, or of one behind it
      rcases List.mem_cons.mp hc with rfl | hc
      · rw [hbody] at hbody'
        cases hbody'
        exact hbranches br hbr b hin
      · exact hrest b (.branch _ c b d' br hc hbody' hbr hin)

theorem clean_of_leaves {actions : List ConfAction} (h : ∀ a ∈ actions, leaf a.body = true) :
    Clean actions := by
  induction actions with
  | nil => exact clean_nil
  | cons a actions ih =>
    rcases List.forall_mem_cons.mp h with ⟨ha, hactions⟩
    exact (clean_cons_leaf actions ha).mpr (ih hactions)

/-! ## Accuracy -/

/-- All references of the action find their headers. -/
def RefsOk (o : List Origin) (a : ConfAction) : Prop :=
  ∀ r ∈ a.refs, Refers o r

/-- When an action of the pipeline is executed, its indices are right if and
only if it reads in front. -/
def Accurate (o : List Origin) (actions : List ConfAction) : Prop :=
  ∀ (b : ConfAction) (o' : List Origin), Visits o actions b o' → (RefsOk o' b ↔ b.ReadsInFront)

theorem accurate_nil (o : List Origin) : Accurate o [] := by
  intro b o' h
  cases h

theorem accurate_append {before behind : List ConfAction} (hbefore : Accurate o before)
    (hbehind : Accurate (before.foldl effect o) behind) : Accurate o (before ++ behind) := by
  intro b o' h
  rcases visits_append o h with hvisit | hvisit
  · exact hbefore b o' hvisit
  · exact hbehind b o' hvisit

theorem accurate_singleton (hrepl : ∀ d, a.body ≠ .repl d) (h : RefsOk o a ↔ a.ReadsInFront) :
    Accurate o [a] := by
  intro b o' hvisit
  cases hvisit with
  | here => exact h
  | next _ _ _ _ _ _ hrest => cases hrest
  | branch _ _ _ _ _ d br hbody _ _ => exact absurd hbody (hrepl d)

/-- Actions that neither change the headers nor have branches, nor assign to a
header added before them. -/
def plain : ActionBody ConfAction → Bool
  | .add _ | .del _ | .repl _ | .edit _ (some _) => false
  | _ => true

theorem effect_of_plain (o : List Origin) (h : plain a.body = true) : effect o a = o := by
  unfold effect
  split
  · rename_i hbody
    rw [hbody] at h
    cases h
  · rename_i hbody
    rw [hbody] at h
    cases h
  · rfl

theorem leaf_of_plain {body : ActionBody ConfAction} (h : plain body = true) :
    leaf body = true := by
  unfold leaf
  split
  · cases h
  · cases h
  · rfl

theorem accurate_repl {d : ReplAction ConfAction} (hbody : a.body = .repl d)
    (h : ∀ br ∈ d.pipelines, Accurate o br.actions) : Accurate o [a] := by
  intro b o' hvisit
  cases hvisit with
  | here =>
    refine iff_of_true ?_ ?_
    · intro r hr
      simp only [ConfAction.refs, hbody, List.not_mem_nil] at hr
    · simp only [ConfAction.ReadsInFront, hbody]
  | next _ _ _ _ _ _ hrest => cases hrest
  | branch _ _ _ _ _ d' br hbody' hbr hrest =>
    rw [hbody] at hbody'
    cases hbody'
    exact h br hbr b o' hrest

end Dnt
