import Dnt.Theory.Actions.HeaderList

/-!
# What Words Look Up

The words of a stage name headers and fields, which are looked up in the current
header list. The index that goes into an action is the position of the header in
that list.

## Theorems

* `tokenHeader_mem`: A header that is found is in the list.
* `lastIpHeader_getElem?`: So is the IP header in front of another one, at its index.
-/

namespace Dnt

variable {env : CompileEnv} {l : ConfLhs} {r : ConfRhs} {w : FieldWriter}
  {headers : List ConfHeader} {id : ProtocolID} {string : String}

variable {key token val : String}

theorem fieldRef_rhsConst (h : rhsConst env l id string = .ok (r, w)) : r.fieldRef = none := by
  unfold rhsConst at h
  rcases bind_eq_ok.mp h with ⟨value, -, h⟩
  rcases bind_eq_ok.mp h with ⟨-, -, h⟩
  rcases bind_eq_ok.mp h with ⟨write, -, h⟩
  cases h
  rfl

theorem fieldRef_rhsIface {iface : Interface} (h : rhsIface l iface key val = .ok (r, w)) :
    r.fieldRef = none := by
  unfold rhsIface at h
  rcases bind_eq_ok.mp h with ⟨reader, -, h⟩
  rcases bind_eq_ok.mp h with ⟨-, -, h⟩
  rcases bind_eq_ok.mp h with ⟨write, -, h⟩
  cases h
  rfl

theorem fieldRef_rhsField {d : ConfHeader} (h : rhsField headers l d key val = .ok (r, w)) :
    ∃ f, r.fieldRef = some (newHeaderfield (headerIndex headers d) d f) := by
  unfold rhsField at h
  rcases bind_eq_ok.mp h with ⟨pf, -, h⟩
  rcases bind_eq_ok.mp h with ⟨-, -, h⟩
  rcases bind_eq_ok.mp h with ⟨-, -, h⟩
  rcases bind_eq_ok.mp h with ⟨write, -, h⟩
  cases h
  exact ⟨pf, rfl⟩

theorem fieldRef_processAssignmentRhs
    (h : processAssignmentRhs env headers l id string = .ok (r, w)) :
    (r.fieldRef = none ∧ rhsHeader headers string = none) ∨
      ∃ d f, d ∈ headers ∧ r.fieldRef = some (newHeaderfield (headerIndex headers d) d f) ∧
        rhsHeader headers string = some (headerIndex headers d) := by
  unfold processAssignmentRhs at h
  cases hparse : parseFieldname string with
  | none =>
    -- not of the form of a field name, so a constant
    simp only [hparse] at h
    refine Or.inl ⟨fieldRef_rhsConst h, ?_⟩
    simp only [rhsHeader, hparse]
  | some found =>
    rcases found with ⟨key, val⟩
    cases hfind : headerListFindByName headers key with
    | some hit =>
      rcases hit with ⟨d, next⟩
      simp only [hparse, hfind] at h
      split at h
      · cases h
      · rcases fieldRef_rhsField h with ⟨f, hf⟩
        refine Or.inr ⟨d, f, headerListFindByName_mem hfind, hf, ?_⟩
        simp [rhsHeader, hparse, hfind]
    | none =>
      -- no header has the name, so it is an interface or a constant after all
      simp only [hparse, hfind] at h
      refine Or.inl ⟨?_, by simp [rhsHeader, hparse, hfind]⟩
      split at h
      · exact fieldRef_rhsIface h
      · exact fieldRef_rhsConst h

theorem fieldOk_processAssignmentRhs {fresh : Nat} (hok : HeadersOk headers fresh)
    (h : processAssignmentRhs env headers l id string = .ok (r, w)) :
    ∀ f ∈ r.fieldRef, FieldOk headers f := by
  intro f hf
  rcases fieldRef_processAssignmentRhs h with
    ⟨hnone, -⟩ | ⟨d, pf, hmem, hsome, -⟩
  · rw [hnone] at hf
    cases hf
  · rw [hsome] at hf
    cases hf
    exact fieldOk_newHeaderfield pf (getElem?_headerIndex hok hmem)

theorem headerIdx_processAssignmentRhs
    (h : processAssignmentRhs env headers l id string = .ok (r, w)) :
    r.fieldRef.map (fun f => f.field.headerIdx) = rhsHeader headers string := by
  rcases fieldRef_processAssignmentRhs h with
    ⟨hnone, hrhs⟩ | ⟨d, pf, -, hsome, hrhs⟩
  · rw [hnone, hrhs]
    rfl
  · rw [hsome, hrhs]
    rfl

theorem tokenHeader_mem {s : StageState} {a : ConfAction} {missing : String} {h : ConfHeader}
    (hh : tokenHeader s a token missing = .ok h) : h ∈ s.headers :=
  findHeader_mem hh

theorem lastIpHeader_getElem? (k : Nat) (found : Option (Nat × ProtocolID × Nat)) {i : Nat}
    {version : ProtocolID} {tag : Nat} (h : lastIpHeader headers k found = some (i, version, tag)) :
    found = some (i, version, tag) ∨ (k ≤ i ∧ ∃ d, headers[i - k]? = some d ∧ d.tag = tag) := by
  induction headers generalizing k found with
  | nil => exact Or.inl h
  | cons d headers ih =>
    rcases ih (k + 1) _ h with hfound | ⟨hle, e, he, htag⟩
    · split at hfound
      · cases hfound
        refine Or.inr ⟨Nat.le_refl _, d, ?_, rfl⟩
        rw [Nat.sub_self, List.getElem?_cons_zero]
      · exact Or.inl hfound
    · refine Or.inr ⟨by omega, e, ?_, htag⟩
      rw [show i - k = i - (k + 1) + 1 by omega, List.getElem?_cons_succ]
      exact he

theorem fieldOk_metaField {op : MetaOp} {hdr : ConfHeader} {idx : Nat} {f : FieldRef}
    (hidx : headers[idx]? = some hdr) (h : metaField op hdr idx = some f) : FieldOk headers f := by
  have hseq : (headerGetFieldOfType hdr idx .tsnSeq).or (headerGetFieldOfType hdr idx .srv6Seq) =
      some f → FieldOk headers f := by
    intro hor
    rcases Option.or_eq_some_iff.mp hor with hseq | ⟨-, hseq⟩
    all_goals exact fieldOk_headerGetFieldOfType hidx hseq
  cases op with
  | readseq | writeseq => exact hseq h
  | readtstamp | writetstamp => exact fieldOk_headerGetFieldOfType hidx h

theorem mem_keywords {body : ActionBody ConfAction} (h : keywords.lookup token = some body) :
    (token, body) ∈ keywords := by
  rcases List.lookup_eq_some_iff.mp h with ⟨l₁, l₂, hl, -⟩
  rw [hl]
  exact List.mem_append_right _ List.mem_cons_self

end Dnt
