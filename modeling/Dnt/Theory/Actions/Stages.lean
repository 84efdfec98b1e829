import Dnt.Theory.Actions.Blocks

/-!
# What a Line Compiles To

The compiler builds its list newest first, swaps actions in it, puts whole lines in
the place of jumps and reverses it in the end.

## Main definitions

* `Produces`: What comes out, in the order of execution: a sequence of blocks, one for each
  stage, that may end with a jump or a replicate action, whose lines are compiled in the
  same way.

## Theorems

* `produces_parseActionsLine`: What is compiled for a stream is produced in this sense.
-/

namespace Dnt

variable {name : String}

/-- What comes in front of the line `name` that a stage goes on with: nothing
for a jump, and an eliminate action with its maintenance points. -/
inductive Lead (env : CompileEnv) (s : StageState) (stage : List Char) (name : String) :
    List ConfAction → Prop where
  | jump (hgoes : stageGoes env (words stage) = .jump name) : Lead env s stage name []
  | elim (d : ElimAction) (hgoes : stageGoes env (words stage) = .elim name) :
      Lead env s stage name [userAction stage (.elim d)]
  | pointedElim (d : ElimAction) (pre post : ConfAction)
      (hgoes : stageGoes env (words stage) = .elim name) (hpre : AutoMip s pre)
      (hpost : AutoMip s post) :
      Lead env s stage name [pre, userAction stage (.elim d), post]

/-- Actions that stand between blocks. -/
def passing : ActionBody ConfAction → Bool
  | .elim _ | .oam _ _ => true
  | _ => false

variable {env : CompileEnv} {a : ConfAction} {lines : List (List Char)} {line : List Char}
  {as lead points : List ConfAction} {n : Nat} {s s' : StageState}

open List

theorem passing_points (h : points = [] ∨ ∃ mip, points = [mip] ∧ AutoMip s mip) :
    ∀ a ∈ points, passing a.body = true := by
  rcases h with rfl | ⟨mip, rfl, -, d, hbody, -⟩
  · exact nofun
  · exact forall_mem_singleton.mpr (by rw [hbody]; rfl)

theorem passing_lead {stage : List Char} (h : Lead env s stage name lead) :
    ∀ a ∈ lead, passing a.body = true := by
  cases h with
  | jump => exact nofun
  | elim d => exact forall_mem_singleton.mpr rfl
  | pointedElim d pre post hgoes hpre hpost =>
    have hpre := passing_points (Or.inr ⟨pre, rfl, hpre⟩)
    have hpost := passing_points (Or.inr ⟨post, rfl, hpost⟩)
    exact forall_mem_cons.mpr ⟨hpre pre mem_cons_self, forall_mem_cons.mpr ⟨rfl, hpost⟩⟩

theorem passing_startOf {b : StageState} (h : StartOf s name b) :
    ∀ a ∈ b.actions.reverse, passing a.body = true := by
  rcases h with ⟨k, mw, news, points, -, -, rfl, hpoints⟩
  exact fun a ha => passing_points hpoints a (mem_reverse.mp ha)

/-- A branch, the line it is compiled from, and the states around that line. -/
structure BranchRun where
  branch : ReplicateBranch ConfAction
  start : StageState
  line : List Char
  acts : List ConfAction
  stop : StageState

/-- The branch starts in state `s`, and its actions are those of the line. -/
def BranchRun.StartsIn (env : CompileEnv) (s : StageState) (r : BranchRun) : Prop :=
  StartOf s r.branch.name r.start ∧ branchText env r.branch.name = some r.line ∧
    r.branch.actions = r.start.actions.reverse ++ r.acts

/-- `Produces env n s stages as s'`: compiling the stages in state `s` gives the
actions `as`, in the order of execution, and the state `s'`, with less than
`n` levels below. -/
inductive Produces (env : CompileEnv) :
    Nat → StageState → List (List Char) → List ConfAction → StageState → Prop where
  | nil (n : Nat) (s : StageState) : Produces env n s [] [] s
  | block (n : Nat) (s s₁ s' : StageState) (stage : List Char) (rest : List (List Char))
      (block as : List ConfAction) (hopen : s.hadFinal = false)
      (hgoes : stageGoes env (words stage) = .on) (hblock : Block env s stage block s₁)
      (hrest : Produces env n s₁ rest as s') : Produces env n s (stage :: rest) (block ++ as) s'
  | jump (n : Nat) (s j s' : StageState) (stage line : List Char) (name : String)
      (lead news as : List ConfAction) (mw : List MustWriteField) (hopen : s.hadFinal = false)
      (hlead : Lead env s stage name lead) (hline : env.streamsSec name = some line)
      (hnews : ∀ a ∈ news, quiet a = true)
      (hrest : Produces env n
        { s with
          stream := name
          actions := []
          mustWrite := mw
          parents := (news ++ s.actions) :: s.parents
          added := [] } (stages line) as j)
      (hadded : s'.added = j.added ++ s.added) (hfinal : s'.hadFinal = true)
      (hfresh : s.fresh ≤ s'.fresh) (hactions : s'.actions = (lead ++ as).reverse ++ s.actions) :
      Produces env (n + 1) s [stage] (lead ++ as) s'
  | repl (n : Nat) (s s' : StageState) (stage : List Char) (points : List ConfAction)
      (d : ReplAction ConfAction) (runs : List BranchRun) (hopen : s.hadFinal = false)
      (hgoes : stageGoes env (words stage) = .repl (d.pipelines.map ReplicateBranch.name))
      (hpoints : points = [] ∨ ∃ mip, points = [mip] ∧ AutoMip s mip)
      (hruns : d.pipelines = runs.map BranchRun.branch) (hstart : ∀ r ∈ runs, r.StartsIn env s)
      (hbranch : ∀ r ∈ runs, Produces env n r.start (stages r.line) r.acts r.stop)
      (hadded : ∀ st, st ∈ s'.added ↔ (∃ r ∈ runs, st ∈ r.stop.added) ∨ st ∈ s.added)
      (hfinal : s'.hadFinal = true) (hfresh : s.fresh ≤ s'.fresh)
      (hactions : s'.actions = (points ++ [userAction stage (.repl d)]).reverse ++ s.actions) :
      Produces env (n + 1) s [stage] (points ++ [userAction stage (.repl d)]) s'

theorem actions_of_produces (h : Produces env n s lines as s') :
    s'.actions = as.reverse ++ s.actions := by
  induction h with
  | nil n s => rfl
  | block n s s₁ s' stage rest block as hopen hgoes hblock hrest ih =>
    rw [ih, actions_of_block hblock, reverse_append, append_assoc]
  | jump n s j s' stage line name lead news as mw hopen hlead hline hnews hrest hadded hfinal
      hfresh hactions ih => exact hactions
  | repl n s s' stage points d runs hopen hgoes hpoints hruns hstart hbranch hadded hfinal hfresh
      hactions ih => exact hactions

theorem fresh_of_produces (h : Produces env n s lines as s') : s.fresh ≤ s'.fresh := by
  induction h with
  | nil n s => exact Nat.le_refl _
  | block n s s₁ s' stage rest block as hopen hgoes hblock hrest ih =>
    exact (fresh_of_block hblock).trans ih
  | jump n s j s' stage line name lead news as mw hopen hlead hline hnews hrest hadded hfinal
      hfresh hactions ih => exact hfresh
  | repl n s s' stage points d runs hopen hgoes hpoints hruns hstart hbranch hadded hfinal hfresh
      hactions ih => exact hfresh

/-- Lines one level deeper are known to be produced. -/
def LineProduces (env : CompileEnv) (n : Nat) : LineSpec := fun s line s' =>
  ∃ as, Produces env n s (stages line) as s'

section Final

variable (env : CompileEnv) (n : Nat) (sub : SubCompiler) (s s' : StageState) (stage : List Char)
  (mw : List MustWriteField)

theorem produces_processJump (hsub : SubMeets sub (LineProduces env n))
    (hopen : s.hadFinal = false) (hlead : Lead env s stage name lead)
    (ha : quiet a = true) (hquiet : ∀ b ∈ lead, quiet b = true) (h : processJump env sub
      { s with actions := a :: (lead.reverse ++ s.actions), mustWrite := mw } a
      (lead.reverse ++ s.actions) (some name) = .ok s') :
    s'.hadFinal = true ∧ ∃ as, Produces env (n + 1) s [stage] as s' := by
  unfold processJump at h
  rcases bind_eq_ok.mp h with ⟨name', hname, h⟩
  cases hname
  rcases bind_eq_ok.mp h with ⟨line, hline, h⟩
  rcases bind_eq_ok.mp h with ⟨compile, hcompiler, h⟩
  rcases bind_eq_ok.mp h with ⟨j, hcompile, h⟩
  rcases bind_eq_ok.mp h with ⟨-, -, h⟩
  rcases hsub compile ((orThrow_eq_ok).mp hcompiler) _ _ _ hcompile with
    ⟨⟨as, hproduces⟩, hfresh⟩
  have hactions := actions_of_produces hproduces
  rw [append_nil] at hactions
  have hnews : ∀ b ∈ a :: lead.reverse, quiet b = true :=
    forall_mem_cons.mpr ⟨ha, fun b hb => hquiet b (mem_reverse.mp hb)⟩
  have hfinal : s'.hadFinal = true := by
    rw [← Except.ok.inj h]
  refine ⟨hfinal, lead ++ as, .jump n s j s' stage line name lead (a :: lead.reverse) as mw hopen
    hlead ((orThrow_eq_ok).mp hline) hnews hproduces ?_ hfinal ?_ ?_⟩
  · rw [← Except.ok.inj h]
  · rw [← Except.ok.inj h]
    exact hfresh
  · rw [← Except.ok.inj h, reverse_append, append_assoc, ← hactions]

theorem produces_processElim (hsub : SubMeets sub (LineProduces env n)) (hopen : s.hadFinal = false)
    {d : ElimAction} (hspelled : Spelled env (words stage) (.elim d)) (h : processElim env sub
      { s with actions := userAction stage (.elim d) :: s.actions, mustWrite := mw }
      (userAction stage (.elim d)) s.actions d = .ok s') :
    s'.hadFinal = true ∧ ∃ as, Produces env (n + 1) s [stage] as s' := by
  unfold processElim at h
  rcases bind_eq_ok.mp h with ⟨recov, hrecov, h⟩
  rcases bind_eq_ok.mp h with ⟨name, hname, h⟩
  rcases bind_eq_ok.mp h with ⟨-, -, h⟩
  rcases bind_eq_ok.mp h with ⟨t, hpoints, h⟩
  have hgoes : stageGoes env (words stage) = .elim name := by
    rcases d with ⟨recov', name', stack⟩
    cases ((orThrow_eq_ok).mp hrecov : recov' = some recov)
    cases ((orThrow_eq_ok).mp hname : name' = some name)
    exact hspelled
  unfold pointsForElim at hpoints
  split at hpoints
  · unfold autoMipElim at hpoints
    rcases bind_eq_ok.mp hpoints with ⟨t₁, hbefore, hpoints⟩
    rcases autoMipBefore_eq rfl rfl hbefore with
      ⟨pre, mw₁, rfl, hpre, hquietPre⟩
    rcases pushAutoMip_eq _ t _ [userAction stage _, pre] s hpoints rfl
      (forall_mem_cons.mpr ⟨rfl, forall_mem_singleton.mpr hquietPre⟩)
      rfl rfl rfl rfl rfl with
      ⟨post, mw₂, rfl, hpost, hquietPost⟩
    refine produces_processJump env n sub s s' stage mw₂ hsub hopen
      (.pointedElim _ pre post hgoes hpre hpost) rfl ?_ h
    intro b hb
    simp only [mem_cons, not_mem_nil, or_false] at hb
    rcases hb with rfl | rfl | rfl
    · exact hquietPre
    · rfl
    · exact hquietPost
  · cases hpoints
    exact produces_processJump env n sub s s' stage mw hsub hopen (.elim _ hgoes) rfl
      (forall_mem_singleton.mpr rfl) h

theorem exists_runs {pipelines : List (ReplicateBranch ConfAction)} {stops : List StageState}
    (h : List.Forall₂ (BranchOf env (LineProduces env n) s) pipelines stops) :
    ∃ runs : List BranchRun, pipelines = runs.map BranchRun.branch ∧
      stops = runs.map BranchRun.stop ∧
      ∀ r ∈ runs, r.StartsIn env s ∧ Produces env n r.start (stages r.line) r.acts r.stop := by
  induction h with
  | nil => exact ⟨[], rfl, rfl, nofun⟩
  | cons hbranch hrest ih =>
    rename_i br b' pipelines stops
    rcases hbranch with ⟨b, line, hstart, hline, ⟨as, hproduces⟩, hactions⟩
    rcases ih with ⟨runs, rfl, rfl, hruns⟩
    refine ⟨⟨br, b, line, as, b'⟩ :: runs, rfl, rfl,
      forall_mem_cons.mpr ⟨⟨⟨hstart, hline, ?_⟩, hproduces⟩, hruns⟩⟩
    rw [hactions, actions_of_produces hproduces, reverse_append, reverse_reverse]

theorem produces_processRepl (hopen : s.hadFinal = false) {t : StageState}
    {d : ReplAction ConfAction}
    (hread : Reading env (LineProduces env n) s (String.ofList stage) (words stage) t a points)
    (hbody : a.body = .repl d) (h : processRepl t a (points ++ s.actions) d = .ok s') :
    s'.hadFinal = true ∧ ∃ as, Produces env (n + 1) s [stage] as s' := by
  have hspelled := hread.spelled
  have hreplicated := hread.replicated
  rw [hbody] at hspelled hreplicated
  unfold processRepl at h
  rcases bind_eq_ok.mp h with ⟨-, -, h⟩
  rcases hreplicated.2.2 with ⟨stops, hstops, hadded⟩
  rcases exists_runs env n s hstops with ⟨runs, hruns, rfl, hbranches⟩
  have hgoes := hspelled []
  rw [append_nil, filter_nil, append_nil, ← map_reverse] at hgoes
  have hpoints : points = [] ∨ ∃ mip, points = [mip] ∧ AutoMip s mip := by
    rcases hreplicated.2.1 with hnil | ⟨mip, hmip, -, hauto⟩
    · exact Or.inl hnil
    · exact Or.inr ⟨mip, hmip, hauto⟩
  have hreverse : points.reverse = points := by
    rcases hpoints with rfl | ⟨mip, rfl, -⟩
    · rfl
    · rfl
  rcases hread.state with ⟨mw, fresh, added, rfl, hfresh⟩
  have ha : ∀ body, ({ a with body := body } : ConfAction) = userAction stage body := by
    intro body
    rw [userAction, hread.text_eq, hread.auto_eq]
  have hfinal : s'.hadFinal = true := by
    rw [← Except.ok.inj h]
  refine ⟨hfinal, _, .repl n s s' stage points
    { d with pipelines := d.pipelines.reverse, protostack := checkHeaderStackForOam s.headers }
    runs.reverse hopen hgoes hpoints ?_ (fun r hr => (hbranches r (mem_reverse.mp hr)).1)
    (fun r hr => (hbranches r (mem_reverse.mp hr)).2) ?_ hfinal ?_ ?_⟩
  · rw [hruns, map_reverse]
  · intro st
    rw [← Except.ok.inj h]
    simp [StageState.setBody, hadded, exists_exists_and_eq_and]
  · rw [← Except.ok.inj h]
    exact hfresh
  · rw [← Except.ok.inj h, reverse_append, reverse_singleton, singleton_append, hreverse, ← ha]
    rfl

theorem produces_processStage (hsub : SubMeets sub (LineProduces env n))
    (h : processStage env sub s stage = .ok s') : s.hadFinal = false ∧
      ((stageGoes env (words stage) = .on ∧ ∃ block, Block env s stage block s') ∨
        (s'.hadFinal = true ∧ ∃ as, Produces env (n + 1) s [stage] as s')) := by
  unfold processStage at h
  split at h
  · cases h
  rename_i hfinal
  have hopen := Bool.eq_false_of_not_eq_true hfinal
  refine ⟨hopen, ?_⟩
  rcases bind_eq_ok.mp h with ⟨t, htokens, h⟩
  rcases reading_words hsub htokens with ⟨a, points, hread⟩
  have hactions : t.actions = a :: (points ++ s.actions) := by
    rcases hread.state with ⟨mw, fresh, added, rfl, -⟩
    rfl
  simp only [hactions] at h
  have hprocess : a.body ≠ .undef ∧ processAction env sub t a (points ++ s.actions) = .ok s' := by
    split at h
    · cases h
    · rename_i hundef
      exact ⟨hundef, h⟩
  clear h
  rcases hprocess with ⟨hundef, h⟩
  by_cases hrepl : ∃ d, a.body = .repl d
  · rcases hrepl with ⟨d, hbody⟩
    unfold processAction at h
    simp only [hbody] at h
    exact Or.inr (produces_processRepl env n s s' stage hopen hread hbody h)
  -- without branches there is just the action
  have ha : a = userAction stage a.body := by
    rcases a with ⟨text, auto, body⟩
    rw [userAction, ← hread.text_eq, ← hread.auto_eq]
  have ht : ∃ mw, t = { s with actions := userAction stage a.body :: s.actions, mustWrite := mw } ∧
      points = [] := by
    have hplain : points = [] ∧ t.fresh = s.fresh ∧ t.added = s.added := by
      have hreplicated := hread.replicated
      cases hbody : a.body with
      | repl d => exact absurd ⟨d, hbody⟩ hrepl
      | _ =>
        rw [hbody] at hreplicated
        exact hreplicated
    rcases hplain with ⟨rfl, hfresh, hadded⟩
    rcases hread.state with ⟨mw, fresh, added, rfl, -⟩
    cases hfresh
    cases hadded
    refine ⟨mw, ?_, rfl⟩
    rw [← ha]
    rfl
  rcases ht with ⟨mw, rfl, rfl⟩
  have hknown := hread.known
  have hspelled := hread.spelled
  rw [nil_append] at h
  generalize a.body = body at *
  subst ha
  by_cases hstays : staysOnLine body = true
  · refine Or.inl ⟨?_, block_processAction env s s' stage mw hopen hstays hknown h⟩
    have hgoes := (spelled_iff_of_staysOnLine env hstays).mp hspelled []
    rw [append_nil] at hgoes
    exact hgoes
  · refine Or.inr ?_
    cases body with
    | undef => exact absurd rfl hundef
    | repl d => exact absurd ⟨d, rfl⟩ hrepl
    | jump name =>
      cases name with
      | none =>
        rcases bind_eq_ok.mp h with ⟨name, hno, -⟩
        cases hno
      | some name =>
        exact produces_processJump env n sub s s' stage mw hsub hopen (.jump hspelled)
          rfl nofun h
    | elim d => exact produces_processElim env n sub s s' stage mw hsub hopen hspelled h
    | _ => exact absurd rfl hstays

theorem produces_foldlM (hsub : SubMeets sub (LineProduces env n)) {rest : List (List Char)}
    (h : rest.foldlM (processStage env sub) s = .ok s') :
    ∃ as, Produces env (n + 1) s rest as s' := by
  induction rest generalizing s with
  | nil =>
    cases h
    exact ⟨[], .nil _ _⟩
  | cons stage rest ih =>
    rw [foldlM_cons] at h
    rcases bind_eq_ok.mp h with ⟨s₁, hstage, h⟩
    rcases produces_processStage env n sub s s₁ stage hsub hstage with
      ⟨hopen, ⟨hgoes, block, hblock⟩ | ⟨hfinal, as, hproduces⟩⟩
    · rcases ih s₁ h with ⟨as, hrest⟩
      exact ⟨block ++ as, .block _ s s₁ s' stage rest block as hopen hgoes hblock hrest⟩
    · cases rest with
      | nil =>
        cases h
        exact ⟨as, hproduces⟩
      | cons next rest =>
        rw [foldlM_cons] at h
        rcases bind_eq_ok.mp h with ⟨s₂, hno, -⟩
        have hopen₁ := (produces_processStage env n sub s₁ s₂ next hsub hno).1
        rw [hfinal] at hopen₁
        cases hopen₁

end Final

theorem subMeets_produces (env : CompileEnv) (levels : Nat) :
    SubMeets (some (compileStages env levels)) (LineProduces env (levels + 1)) := by
  -- with the fresh numbers that come with every line
  have hline : ∀ n sub, SubMeets sub (LineProduces env n) → ∀ s line s',
      foreachStages (processStage env sub) s line = .ok s' →
      LineProduces env (n + 1) s line s' ∧ s.fresh ≤ s'.fresh := by
    intro n sub hsub s line s' h
    rcases produces_foldlM env n sub s s' hsub h with ⟨as, hproduces⟩
    exact ⟨⟨as, hproduces⟩, fresh_of_produces hproduces⟩
  induction levels with
  | zero =>
    intro compile hcompile s line s' h
    cases hcompile
    refine hline 0 none ?_ s line s' h
    intro compile hno
    cases hno
  | succ levels ih =>
    intro compile hcompile s line s' h
    cases hcompile
    exact hline (levels + 1) _ ih s line s' h

theorem produces_compileStages {levels : Nat} (h : compileStages env levels s line = .ok s') :
    ∃ as, Produces env (levels + 1) s (stages line) as s' ∧
      s'.actions = as.reverse ++ s.actions := by
  rcases (subMeets_produces env levels _ rfl s line s' h).1 with ⟨as, hproduces⟩
  exact ⟨as, hproduces, actions_of_produces hproduces⟩

theorem headers_initialState (stream : String) (headers : List HeaderDescriptor)
    (first : HeaderDescriptor) :
    (initialState stream headers first).headers = tagHeaders headers 0 ∧
      (initialState stream headers first).fresh = headers.length ∧
      (initialState stream headers first).added = [] := by
  unfold initialState
  dsimp only
  split
  all_goals exact ⟨rfl, rfl, rfl⟩

/-- The actions of a stream, with the reduction of the time to live in front if
there is one. -/
theorem produces_parseActionsLine {stream : String} {headers : List HeaderDescriptor}
    {actions : List ConfAction} (h : parseActionsLine env stream line headers = .ok actions) :
    ∃ first rest as s', headers = first :: rest ∧ compileLine env stream line headers = .ok s' ∧
      Produces env (maxDepth + 2) (initialState stream headers first) (stages line) as s' ∧
      actions = (initialState stream headers first).actions ++ as := by
  cases headers with
  | nil => cases h
  | cons first rest =>
    unfold parseActionsLine at h
    rcases bind_eq_ok.mp h with ⟨s', hs', h⟩
    rcases bind_eq_ok.mp h with ⟨-, -, h⟩
    rcases produces_compileStages hs' with ⟨as, hproduces, hactions⟩
    refine ⟨first, rest, as, s', rfl, hs', hproduces, ?_⟩
    have hstart : (initialState stream (first :: rest) first).actions.reverse =
        (initialState stream (first :: rest) first).actions := by
      unfold initialState
      dsimp only
      split
      · rfl
      · rfl
    rw [← Except.ok.inj h, hactions, reverse_append, reverse_reverse, hstart]

end Dnt
