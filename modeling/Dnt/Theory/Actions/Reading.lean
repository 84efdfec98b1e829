import Dnt.Theory.Actions.Words

/-!
# Reading a Stage

After all words of a stage, the state is the one in front of it with one more
action. The lines of branches have been compiled by then, each from a state with
copies of the headers. Invariants of the compiler are proved from this account
and not from the functions that read single words.

## Main definitions

* `Reading`: The state that the words of a stage lead to, with its action as far as read.
* `SubMeets`: What a compiled line one level deeper does, which is a parameter here.

## Theorems

* `reading_words`: All words of a stage lead to such a state.
-/

namespace Dnt

/-- The state that a branch is compiled in, with copies of the headers of `s`. -/
def StartOf (s : StageState) (name : String) (b : StageState) : Prop :=
  ∃ (k : Nat) (mw : List MustWriteField) (news points : List ConfAction),
    s.fresh ≤ k ∧ (∀ a ∈ news, quiet a = true) ∧
    b = { s with
      stream := name
      headers := copyHeaderList s.headers k
      actions := points
      mustWrite := mw
      parents := (news ++ s.actions) :: s.parents
      fresh := k + s.headers.length
      added := [] } ∧
    (points = [] ∨ ∃ mip, points = [mip] ∧ AutoMip { b with actions := [] } mip)

/-- What is known of the state in front of a line, its text and the state behind
it. -/
abbrev LineSpec : Type := StageState → List Char → StageState → Prop

/-- The compiler one level deeper compiles lines like this. -/
def SubMeets (sub : SubCompiler) (R : LineSpec) : Prop :=
  ∀ compile, sub = some compile →
    ∀ s line s', compile s line = .ok s' → R s line s' ∧ s.fresh ≤ s'.fresh

/-- A branch of a replicate action in state `s`, and the state behind it. -/
def BranchOf (env : CompileEnv) (R : LineSpec) (s : StageState)
    (br : ReplicateBranch ConfAction) (b' : StageState) : Prop :=
  ∃ b line, StartOf s br.name b ∧ branchText env br.name = some line ∧ R b line b' ∧
    br.actions = b'.actions.reverse

/-- What is between the action of a stage and those in front of the stage, and
how far its branches are. -/
def Replicated (env : CompileEnv) (R : LineSpec) (s : StageState) (points : List ConfAction)
    (fresh : Nat) (added : List AddStage) : ActionBody ConfAction → Prop
  | .repl d =>
    (d.replobj = none → points = []) ∧
      (points = [] ∨ ∃ mip, points = [mip] ∧ quiet mip = true ∧ AutoMip s mip) ∧
      ∃ stops, List.Forall₂ (BranchOf env R s) d.pipelines stops ∧
        added = stops.flatMap StageState.added ++ s.added
  | _ => points = [] ∧ fresh = s.fresh ∧ added = s.added

/-- The state `t` that the words `ws` of a stage lead to from `s`, with the
action `a` as far as it has been read. -/
structure Reading (env : CompileEnv) (R : LineSpec) (s : StageState) (text : String)
    (ws : List String) (t : StageState) (a : ConfAction) (points : List ConfAction) : Prop where
  state : ∃ mw fresh added,
    t = { s with
      actions := a :: (points ++ s.actions)
      mustWrite := mw
      fresh := fresh
      added := added } ∧ s.fresh ≤ fresh
  text_eq : a.text = text
  auto_eq : a.auto = false
  known : Known env s.headers a.body
  spelled : Spelled env ws a.body
  replicated : Replicated env R s points t.fresh t.added a.body

variable {ws' : List String} {d : ReplAction ConfAction} {token : String}

open List

theorem Reading.setBody {env : CompileEnv} {R : LineSpec} {s t : StageState} {text : String}
    {ws : List String} {a : ConfAction} {points : List ConfAction}
    (hread : Reading env R s text ws t a points) (body : ActionBody ConfAction)
    (mw : List MustWriteField) (hold : ∀ d, a.body ≠ .repl d) (hnew : ∀ d, body ≠ .repl d)
    (hknown : Known env s.headers body) (hspelled : Spelled env ws' body) :
    Reading env R s text ws' { t.setBody a (points ++ s.actions) body with mustWrite := mw }
      { a with body := body } points := by
  have hplain : ∀ (b : ActionBody ConfAction), (∀ d, b ≠ .repl d) →
      (Replicated env R s points t.fresh t.added b ↔
        points = [] ∧ t.fresh = s.fresh ∧ t.added = s.added) := by
    intro b hb
    cases b with
    | repl d => exact absurd rfl (hb d)
    | _ => exact Iff.rfl
  rcases hread.state with ⟨mw₀, fresh, added, ht, hfresh⟩
  exact
    { state := ⟨mw, fresh, added, by rw [ht]; rfl, hfresh⟩
      text_eq := hread.text_eq
      auto_eq := hread.auto_eq
      known := hknown
      spelled := hspelled
      replicated := (hplain body hnew).mpr ((hplain a.body hold).mp hread.replicated) }

section Reads

variable {env : CompileEnv} {R : LineSpec} {sub : SubCompiler} {s t t' : StageState}
  {text : String} {ws : List String} {a : ConfAction} {points : List ConfAction}

theorem reading_setReplobj (hread : Reading env R s text ws t a []) {obj : PipelineObject}
    (hbranches : d.pipelines = []) (hadded : t.added = s.added)
    (hspelled : Spelled env ws' (.repl { d with replobj := some obj }))
    (h : setReplobj t a s.actions d obj = .ok t') :
    ∃ a' points', Reading env R s text ws' t' a' points' := by
  rcases hread.state with ⟨mw, fresh, added, rfl, hfresh⟩
  have hstops : ∃ stops, List.Forall₂ (BranchOf env R s) d.pipelines stops ∧
      added = stops.flatMap StageState.added ++ s.added := by
    rw [hbranches]
    exact ⟨[], .nil, hadded⟩
  unfold setReplobj at h
  dsimp only at h
  split at h
  · rcases autoMipBefore_eq rfl rfl h with ⟨mip, mw', rfl, hmip, hquiet⟩
    exact ⟨_, [mip], ⟨mw', fresh, added, rfl, hfresh⟩, hread.text_eq, hread.auto_eq, trivial,
      hspelled, nofun, Or.inr ⟨mip, rfl, hquiet, hmip⟩, hstops⟩
  · cases h
    exact ⟨_, [], ⟨mw, fresh, added, rfl, hfresh⟩, hread.text_eq, hread.auto_eq, trivial,
      hspelled, fun _ => rfl, Or.inl rfl, hstops⟩

theorem reading_tokenUndef (hread : Reading env R s text ws t a points) (hbody : a.body = .undef)
    (h : tokenUndef env t a (points ++ s.actions) token = .ok t') :
    ∃ a' points', Reading env R s text (ws ++ [token]) t' a' points' := by
  have hfirst := hread.spelled
  have hpoints := hread.replicated
  rw [hbody] at hfirst hpoints
  rcases hpoints with ⟨rfl, -, hadded⟩
  cases hfirst
  have hold : ∀ d, a.body ≠ .repl d := by
    intro d hno
    rw [hbody] at hno
    cases hno
  -- an action that the word starts, without branches so far
  have hstart : ∀ body, openingBody env token = some body → (∀ d, body ≠ .repl d) →
      t' = t.setBody a s.actions body →
      ∃ a' points', Reading env R s text [token] t' a' points' := by
    intro body hopen hnew ht'
    rw [ht']
    exact ⟨_, [], hread.setBody body t.mustWrite hold hnew (known_openingBody s.headers hopen).1
      (spelled_openingBody hopen)⟩
  unfold tokenUndef at h
  split at h
  · rename_i body hkey
    have hopen := openingBody_keyword env hkey
    cases h
    by_cases hrepl : ∃ d, body = .repl d
    · rcases hrepl with ⟨d, rfl⟩
      have hempty : d.pipelines = [] := (known_openingBody s.headers hopen).2
      rcases hread.state with ⟨mw, fresh, added, rfl, hle⟩
      refine ⟨_, [], ⟨mw, fresh, added, rfl, hle⟩, hread.text_eq, hread.auto_eq, trivial,
        spelled_openingBody hopen, fun _ => rfl, Or.inl rfl, ?_⟩
      rw [hempty]
      exact ⟨[], .nil, hadded⟩
    · exact hstart body hopen (fun d hno => hrepl ⟨d, hno⟩) rfl
  · rename_i hkey
    split at h
    · rename_i obj hobj
      have hopen := openingBody_object hkey hobj
      split at h
      all_goals
        rename_i htype
        rw [htype] at hopen
      case h_4 => exact reading_setReplobj hread rfl hadded (spelled_openingBody hopen) h
      all_goals
        cases h
        exact hstart _ hopen (fun _ => nofun) rfl
    · rename_i hobj
      split at h
      · rename_i line hline
        cases h
        refine hstart _ ?_ (fun d hno => by cases hno) rfl
        simp [openingBody, hkey, hobj, hline]
      · cases h

theorem startOf_startBranch {mustWrite : List MustWriteField} {b : StageState}
    (hread : Reading env R s text ws t a points) (hbody : a.body = .repl d)
    (h : startBranch t a d token mustWrite = .ok b) : StartOf s token b ∧ t.fresh ≤ b.fresh := by
  rcases hread.state with ⟨mw, fresh, added, ht, hfresh⟩
  have hreplicated := hread.replicated
  rw [hbody] at hreplicated
  have hnews : ∀ c ∈ a :: points, quiet c = true := by
    refine forall_mem_cons.mpr ⟨by rw [quiet, hbody], ?_⟩
    rcases hreplicated.2.1 with hnil | ⟨mip, hmip, hquiet, -⟩
    · rw [hnil]
      exact forall_mem_nil _
    · rw [hmip]
      exact forall_mem_singleton.mpr hquiet
  -- without a point at the start
  have hplain : b = branchState t token mustWrite → StartOf s token b ∧ t.fresh ≤ b.fresh := by
    intro hb
    rw [hb, ht]
    exact ⟨⟨fresh, mustWrite, a :: points, [], hfresh, hnews, rfl, Or.inl rfl⟩,
      Nat.le_add_right _ _⟩
  unfold startBranch at h
  split at h
  · split at h
    · unfold autoMipBranch at h
      rcases pushAutoMip_eq _ b _ [] (branchState t token mustWrite) h rfl
        (forall_mem_nil _) rfl rfl rfl rfl rfl with ⟨mip, mw', rfl, hmip, -⟩
      subst ht
      exact ⟨⟨fresh, mw', a :: points, [mip], hfresh, hnews, rfl, Or.inr ⟨mip, rfl, hmip⟩⟩,
        Nat.le_add_right _ _⟩
    · cases h
      exact hplain rfl
  · cases h
    exact hplain rfl

theorem branchLine_eq {found : Option (List Char × Bool)}
    (h : branchLine env t a d token = .ok found) : branchText env token = found.map Prod.fst := by
  unfold branchLine at h
  split at h
  · cases h
  · rename_i hnone hsome
    rcases bind_eq_ok.mp h with ⟨-, -, h⟩
    cases h
    rw [branchText, hnone, hsome]
    rfl
  · rename_i hsome hnone
    cases h
    rw [branchText, hsome, hnone]
    rfl
  · rename_i hnone hmasked
    cases h
    rw [branchText, hnone, hmasked]
    rfl

theorem reading_tokenRepl (hsub : SubMeets sub R) (hread : Reading env R s text ws t a points)
    (hbody : a.body = .repl d) (h : tokenRepl env sub t a (points ++ s.actions) d token = .ok t') :
    ∃ a' points', Reading env R s text (ws ++ [token]) t' a' points' := by
  have hspelled := hread.spelled
  have hreplicated := hread.replicated
  rw [hbody] at hspelled hreplicated
  unfold tokenRepl at h
  rcases bind_eq_ok.mp h with ⟨found, hfound, h⟩
  have htext := branchLine_eq hfound
  cases found with
  | none =>
    -- the object, which comes first
    rcases bind_eq_ok.mp h with ⟨⟨⟩, hfirst, h⟩
    rcases bind_eq_ok.mp h with ⟨obj, -, h⟩
    rcases bind_eq_ok.mp h with ⟨-, -, h⟩
    rcases (require_eq_ok).mp hfirst with ⟨hobj, hempty⟩
    have hnil := isEmpty_iff.mp hempty
    rcases hreplicated.2.2 with ⟨stops, hstops, hadded⟩
    rw [hnil] at hstops
    cases hstops
    cases hreplicated.1 (Option.isNone_iff_eq_none.mp hobj)
    refine reading_setReplobj hread hnil hadded ?_ h
    intro more
    rw [append_assoc, singleton_append, hspelled, filter_cons_of_neg]
    simp [htext]
  | some found =>
    rcases found with ⟨pstring, masked⟩
    rcases bind_eq_ok.mp h with ⟨b', hcompile, h⟩
    cases h
    unfold compileBranch at hcompile
    rcases bind_eq_ok.mp hcompile with ⟨compile, hcompiler, hcompile⟩
    rcases bind_eq_ok.mp hcompile with ⟨mustWrite, -, hcompile⟩
    rcases bind_eq_ok.mp hcompile with ⟨b, hstart, hcompile⟩
    rcases bind_eq_ok.mp hcompile with ⟨b'', hline, hcompile⟩
    rcases bind_eq_ok.mp hcompile with ⟨-, -, hcompile⟩
    cases hcompile
    rcases startOf_startBranch hread hbody hstart with ⟨hstartOf, hle⟩
    rcases hsub compile ((orThrow_eq_ok).mp hcompiler) b pstring b' hline with ⟨hR, hle'⟩
    rcases hreplicated.2.2 with ⟨stops, hstops, hadded⟩
    rcases hread.state with ⟨mw, fresh, added, rfl, hfresh⟩
    refine ⟨_, points, ⟨mw, b'.fresh, _, rfl, ?_⟩, hread.text_eq, hread.auto_eq, trivial, ?_,
      hreplicated.1, hreplicated.2.1, ?_⟩
    · exact hfresh.trans (hle.trans hle')
    · intro more
      rw [append_assoc, singleton_append, hspelled, filter_cons_of_pos]
      · simp
      · simp [htext]
    · refine ⟨b' :: stops, .cons ⟨b, pstring, hstartOf, htext, hR, rfl⟩ hstops, ?_⟩
      rw [flatMap_cons, append_assoc, ← hadded]

theorem spelled_tokenElim {d d' : ElimAction} (hspelled : Spelled env ws (.elim d))
    (h : tokenElim env t a d token = .ok d') : Spelled env (ws ++ [token]) (.elim d') := by
  rcases d with ⟨recov, pipename, stack⟩
  unfold tokenElim at h
  cases recov with
  | none =>
    rcases bind_eq_ok.mp h with ⟨obj, -, h⟩
    cases h
    cases pipename with
    | none =>
      intro name more
      rw [append_assoc]
      exact hspelled token name more
    | some name => exact absurd hspelled id
  | some obj =>
    cases pipename with
    | none =>
      cases h
      exact hspelled token []
    | some name => cases h

theorem reading_processToken (hsub : SubMeets sub R) (hread : Reading env R s text ws t a points)
    (h : processToken env sub t token = .ok t') :
    ∃ a' points', Reading env R s text (ws ++ [token]) t' a' points' := by
  have hknown := hread.known
  have hspelled := hread.spelled
  obtain ⟨hactions, hheaders⟩ : t.actions = a :: (points ++ s.actions) ∧ t.headers = s.headers := by
    rcases hread.state with ⟨mw, fresh, added, rfl, -⟩
    exact ⟨rfl, rfl⟩
  unfold processToken at h
  simp only [hactions] at h
  rw [← hheaders] at hknown
  generalize hbody : a.body = body at h hknown hspelled
  -- an action that stays on its line stays so
  have hset : ∀ body' mw, staysOnLine body = true → staysOnLine body' = true →
      Known env t.headers body' →
      t' = { t.setBody a (points ++ s.actions) body' with mustWrite := mw } →
      ∃ a' points', Reading env R s text (ws ++ [token]) t' a' points' := by
    intro body' mw hold hnew hbody' ht'
    rw [hheaders] at hbody'
    rw [ht']
    rw [← hbody] at hold hspelled
    refine ⟨_, points, hread.setBody body' mw ?_ ?_ hbody' (hspelled.snoc token hold hnew)⟩
    · intro d hno
      rw [hno] at hold
      cases hold
    · intro d hno
      rw [hno] at hnew
      cases hnew
  -- most words are read into the data of the action
  have hfill {β : Type} {x : Compile β} {g : β → ActionBody ConfAction}
      (h : (do return t.setBody a (points ++ s.actions) (g (← x))) = .ok t')
      (hold : staysOnLine body = true) (hnew : ∀ d, staysOnLine (g d) = true)
      (hx : ∀ d, x = .ok d → Known env t.headers (g d)) :
      ∃ a' points', Reading env R s text (ws ++ [token]) t' a' points' := by
    rcases bind_eq_ok.mp h with ⟨d, hd, h⟩
    cases h
    exact hset _ t.mustWrite hold (hnew d) (hx d hd) rfl
  cases body with
  | undef => exact reading_tokenUndef hread hbody h
  | repl d => exact reading_tokenRepl hsub hread hbody h
  | jump name =>
    cases name with
    | none =>
      cases h
      refine ⟨_, points, hread.setBody _ t.mustWrite ?_ (fun _ => nofun) trivial
        (hspelled token [])⟩
      exact fun d hno => by rw [hbody] at hno; cases hno
    | some name => cases h
  | elim d =>
    rcases bind_eq_ok.mp h with ⟨d', hd', h⟩
    cases h
    refine ⟨_, points, hread.setBody _ t.mustWrite ?_ (fun _ => nofun) trivial
      (spelled_tokenElim hspelled hd')⟩
    exact fun d hno => by rw [hbody] at hno; cases hno
  | edit assignments addedAt =>
    rcases bind_eq_ok.mp h with ⟨⟨assignments', mw⟩, hedit, h⟩
    cases h
    exact hset _ mw rfl rfl (known_tokenEdit env t a hknown hedit) rfl
  | send iface =>
    cases iface with
    | none => exact hfill h rfl (fun _ => rfl) fun _ _ => trivial
    | some iface => cases h
  | filteroam field => exact absurd hknown id
  | drop | ttlcheck => cases h
  | add d => exact hfill h rfl (fun _ => rfl) fun _ => known_tokenAdd env t a hknown
  | checksum d | verify d => exact hfill h rfl (fun _ => rfl) fun _ => known_tokenChecksum env t a
  | del d => exact hfill h rfl (fun _ => rfl) fun _ => known_tokenDel env t a
  | oam kind d => exact hfill h rfl (fun _ => rfl) fun _ => known_tokenOam env t a hknown
  | metadata op field => exact hfill h rfl (fun _ => rfl) fun _ => known_tokenMetadata env t a
  | setlength d => exact hfill h rfl (fun _ => rfl) fun _ => known_tokenSetlength env t a
  | ttlreduce d => exact hfill h rfl (fun _ => rfl) fun _ => known_tokenTtlreduce env t a
  | delay d | pof pof | seqgen gen => exact hfill h rfl (fun _ => rfl) fun _ _ => trivial

theorem reading_foldlM (hsub : SubMeets sub R) {more : List String}
    (hread : Reading env R s text ws t a points)
    (h : more.foldlM (processToken env sub) t = .ok t') :
    ∃ a' points', Reading env R s text (ws ++ more) t' a' points' := by
  induction more generalizing ws t a points with
  | nil =>
    cases h
    rw [append_nil]
    exact ⟨a, points, hread⟩
  | cons token more ih =>
    rw [foldlM_cons] at h
    rcases bind_eq_ok.mp h with ⟨t₁, ht₁, h⟩
    rcases reading_processToken hsub hread ht₁ with ⟨a₁, points₁, hread₁⟩
    rcases ih hread₁ h with ⟨a', points', hread'⟩
    rw [append_assoc] at hread'
    exact ⟨a', points', hread'⟩

theorem reading_words (hsub : SubMeets sub R) {stage : List Char}
    (h : foreachTokens (processToken env sub)
      { s with actions := blankConfaction stage :: s.actions } stage = .ok t) :
    ∃ a points, Reading env R s (String.ofList stage) (words stage) t a points := by
  have hblank : Reading env R s (String.ofList stage) []
      { s with actions := blankConfaction stage :: s.actions } (blankConfaction stage) [] :=
    { state := ⟨s.mustWrite, s.fresh, s.added, rfl, Nat.le_refl _⟩
      text_eq := rfl
      auto_eq := rfl
      known := trivial
      spelled := rfl
      replicated := ⟨rfl, rfl, rfl⟩ }
  exact reading_foldlM hsub hblank h

end Reads

end Dnt
