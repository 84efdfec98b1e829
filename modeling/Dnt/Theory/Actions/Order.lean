import Dnt.Theory.Actions.Stages

/-!
# The Order of Actions

A line is read as a text with other lines in it: in the place of a jump, behind an
eliminate stage, and in the branches of a replicate stage. The compiler builds its
list newest first, swaps maintenance points, and puts the list of another line on
top of its own.

## Main definitions

* `StageText`, `expandLine`: A stage with those of its branches, and the text of a line.
* `Arranged`: Actions are those of a text, with generated ones next to those they go with.

## Theorems

* `parseActionsLine_arranged`: The actions of a stream are its text, in its order.
-/

namespace Dnt

/-! ## Lines as texts -/

/-- A stage, with the names and stages of its branches. -/
inductive StageText where
  | written (text : String) (branches : List (String × List StageText))

def StageText.text : StageText → String
  | .written text _ => text

/-- What a stage stands for, if `below` is what another line stands for. -/
def expandStage (env : CompileEnv) (below : List Char → List StageText) (stage : List Char) :
    List StageText :=
  match stageGoes env (words stage) with
  | .on => [.written (String.ofList stage) []]
  | .jump name => ((env.streamsSec name).map below).getD []
  | .elim name =>
    .written (String.ofList stage) [] :: ((env.streamsSec name).map below).getD []
  | .repl names =>
    [.written (String.ofList stage)
      (names.map fun name => (name, ((branchText env name).map below).getD []))]

/-- What a line stands for, with other lines up to `n` levels below it. -/
def expandLine (env : CompileEnv) : Nat → List Char → List StageText
  | 0, line => (stages line).flatMap (expandStage env fun _ => [])
  | n + 1, line => (stages line).flatMap (expandStage env (expandLine env n))

/-- What lines below one with `n` levels stand for. -/
def expandBelow (env : CompileEnv) : Nat → List Char → List StageText
  | 0 => fun _ => []
  | n + 1 => expandLine env n

variable {a : ConfAction} {as front : List ConfAction} {ts : List StageText}

open List

theorem expandLine_eq (env : CompileEnv) (n : Nat) (line : List Char) :
    expandLine env n line = (stages line).flatMap (expandStage env (expandBelow env n)) := by
  cases n with
  | zero | succ n => rfl

/-! ## Pipelines as texts -/

inductive UserWritten : List ConfAction → List StageText → Prop where
  | nil : UserWritten [] []
  | generated (a : ConfAction) (as : List ConfAction) (ts : List StageText)
      (hauto : a.auto = true) (hrest : UserWritten as ts) : UserWritten (a :: as) ts
  | written (a : ConfAction) (as : List ConfAction) (ts : List StageText)
      (hauto : a.auto = false) (hbody : ∀ d, a.body ≠ .repl d) (hrest : UserWritten as ts) :
      UserWritten (a :: as) (.written a.text [] :: ts)
  | branched (a : ConfAction) (as : List ConfAction) (ts : List StageText)
      (d : ReplAction ConfAction) (inner : ReplicateBranch ConfAction → List StageText)
      (hauto : a.auto = false) (hbody : a.body = .repl d)
      (hbranches : ∀ br ∈ d.pipelines, UserWritten br.actions (inner br))
      (hrest : UserWritten as ts) :
      UserWritten (a :: as)
        (.written a.text (d.pipelines.map fun br => (br.name, inner br)) :: ts)

/-- At most one action, a generated one with a body like this. -/
def AtMostOne (P : ActionBody ConfAction → Prop) (as : List ConfAction) : Prop :=
  as = [] ∨ ∃ a, as = [a] ∧ a.auto = true ∧ P a.body

/-- Behind an insertion: the sequence number, the time stamp, and assignments. -/
def FilledIn (fill : List ConfAction) : Prop :=
  ∃ seq stamp edit, fill = seq ++ stamp ++ edit ∧
    AtMostOne (fun body => ∃ f, body = .metadata .writeseq f) seq ∧
    AtMostOne (fun body => ∃ f, body = .metadata .writetstamp f) stamp ∧
    AtMostOne (fun body => ∃ assignments pos, body = .edit assignments pos) edit

/-- In front of a deletion: the filter for maintenance packets, and the
next-header field. -/
def Cleared (front : List ConfAction) : Prop :=
  ∃ filter edit, front = filter ++ edit ∧
    AtMostOne (fun body => ∃ f, body = .filteroam f) filter ∧
    AtMostOne (fun body => ∃ assignments pos, body = .edit assignments pos) edit

/-- The body of a maintenance point on the way. -/
def IsMip (body : ActionBody ConfAction) : Prop :=
  ∃ d, body = .oam .mip d

/-- `Arranged as ts`: the actions are those of the text, with generated ones only
around the action they go with. -/
inductive Arranged : List ConfAction → List StageText → Prop where
  | nil : Arranged [] []
  | plain (text : String) (body : ActionBody ConfAction) (as : List ConfAction)
      (ts : List StageText) (hbody : ∀ d, body ≠ .repl d) (hrest : Arranged as ts) :
      Arranged (⟨text, false, body⟩ :: as) (.written text [] :: ts)
  | add (text : String) (d : AddAction) (fill as : List ConfAction) (ts : List StageText)
      (hfill : FilledIn fill) (hrest : Arranged as ts) :
      Arranged (⟨text, false, .add d⟩ :: (fill ++ as)) (.written text [] :: ts)
  | del (text : String) (d : DelAction) (front as : List ConfAction) (ts : List StageText)
      (hfront : Cleared front) (hrest : Arranged as ts) :
      Arranged (front ++ ⟨text, false, .del d⟩ :: as) (.written text [] :: ts)
  | send (text : String) (iface : Option Interface) (check : List ConfAction)
      (as : List ConfAction) (ts : List StageText) (hcheck : AtMostOne (· = .ttlcheck) check)
      (hrest : Arranged as ts) :
      Arranged (check ++ ⟨text, false, .send iface⟩ :: as) (.written text [] :: ts)
  | elim (text : String) (d : ElimAction) (pre post as : List ConfAction) (ts : List StageText)
      (hpre : AtMostOne IsMip pre) (hpost : AtMostOne IsMip post) (hrest : Arranged as ts) :
      Arranged (pre ++ ⟨text, false, .elim d⟩ :: (post ++ as)) (.written text [] :: ts)
  | repl (text : String) (d : ReplAction ConfAction) (pre : List ConfAction)
      (post rest : ReplicateBranch ConfAction → List ConfAction)
      (inner : ReplicateBranch ConfAction → List StageText) (hpre : AtMostOne IsMip pre)
      (hpost : ∀ br ∈ d.pipelines, AtMostOne IsMip (post br))
      (hbranch : ∀ br ∈ d.pipelines, br.actions = post br ++ rest br)
      (hrest : ∀ br ∈ d.pipelines, Arranged (rest br) (inner br)) :
      Arranged (pre ++ [⟨text, false, .repl d⟩])
        [.written text (d.pipelines.map fun br => (br.name, inner br))]

theorem userWritten_generated (hfront : ∀ a ∈ front, a.auto = true) (h : UserWritten as ts) :
    UserWritten (front ++ as) ts := by
  induction front with
  | nil => exact h
  | cons a front ih =>
    rcases forall_mem_cons.mp hfront with ⟨ha, hrest⟩
    exact .generated a _ ts ha (ih hrest)

theorem AtMostOne.auto {P : ActionBody ConfAction → Prop} (h : AtMostOne P as) :
    ∀ a ∈ as, a.auto = true := by
  rcases h with rfl | ⟨a, rfl, ha, -⟩
  · exact nofun
  · exact forall_mem_singleton.mpr ha

theorem FilledIn.auto {fill : List ConfAction} (h : FilledIn fill) : ∀ a ∈ fill, a.auto = true := by
  rcases h with ⟨seq, stamp, edit, rfl, hseq, hstamp, hedit⟩
  exact forall_mem_append.mpr
    ⟨forall_mem_append.mpr ⟨hseq.auto, hstamp.auto⟩, hedit.auto⟩

theorem Cleared.auto (h : Cleared front) : ∀ a ∈ front, a.auto = true := by
  rcases h with ⟨filter, edit, rfl, hfilter, hedit⟩
  exact forall_mem_append.mpr ⟨hfilter.auto, hedit.auto⟩

theorem userWritten_of_arranged (h : Arranged as ts) : UserWritten as ts := by
  induction h with
  | nil => exact .nil
  | plain text body as ts hbody hrest ih => exact .written _ as ts rfl hbody ih
  | add text d fill as ts hfill hrest ih =>
    exact .written _ _ ts rfl nofun
      (userWritten_generated hfill.auto ih)
  | del text d front as ts hfront hrest ih =>
    exact userWritten_generated hfront.auto (.written _ as ts rfl nofun ih)
  | send text iface check as ts hcheck hrest ih =>
    exact userWritten_generated hcheck.auto (.written _ as ts rfl nofun ih)
  | elim text d pre post as ts hpre hpost hrest ih =>
    exact userWritten_generated hpre.auto (.written _ _ ts rfl
      nofun (userWritten_generated hpost.auto ih))
  | repl text d pre post rest inner hpre hpost hbranch hrest ih =>
    refine userWritten_generated hpre.auto (.branched _ [] [] d inner rfl rfl ?_ .nil)
    intro br hbr
    rw [hbranch br hbr]
    exact userWritten_generated (hpost br hbr).auto (ih br hbr)

/-! ## Compiled lines -/

section Compiled

variable (env : CompileEnv) (s s' : StageState) (stage : List Char) (as : List ConfAction)
  (ts : List StageText)

theorem filledIn_added {d : AddAction} {newname : String} {pos : ConfHeader}
    {writeseq : List ConfAction} {ofNew ofPrev : List ConfAssignment}
    (h : Added s a d newname pos writeseq ofNew ofPrev) :
    FilledIn (writeseq ++ writetsForNew a (addedHeader s d newname) (addedIdx s d pos) ++
      addedEdit a (addedIdx s d pos) (addedEdits s d newname pos ofNew ofPrev)) := by
  refine ⟨_, _, _, rfl, ?_, ?_, ?_⟩
  · have hok := h.writeseq_eq
    unfold writeseqForNew at hok
    split at hok
    · cases hok
      exact Or.inl rfl
    · rcases bind_eq_ok.mp hok with ⟨-, -, hok⟩
      cases hok
      exact Or.inr ⟨_, rfl, rfl, _, rfl⟩
  · unfold writetsForNew
    split
    · exact Or.inl rfl
    · exact Or.inr ⟨_, rfl, rfl, _, rfl⟩
  · unfold addedEdit
    split
    · exact Or.inl rfl
    · exact Or.inr ⟨_, rfl, rfl, _, _, rfl⟩

theorem cleared_deleted (delh : ConfHeader) {idx : Nat} (edits : List ConfAssignment) :
    Cleared (filterForDel delh idx ++ deletedEdit a edits) := by
  refine ⟨_, _, rfl, ?_, ?_⟩
  · unfold filterForDel
    split
    · exact Or.inl rfl
    · exact Or.inr ⟨_, rfl, rfl, _, rfl⟩
  · unfold deletedEdit
    split
    · exact Or.inl rfl
    · exact Or.inr ⟨_, rfl, rfl, _, _, rfl⟩

theorem atMostOne_autoMip {mip : ConfAction} (h : AutoMip s mip) : AtMostOne IsMip [mip] := by
  rcases h with ⟨hauto, d, hbody, -⟩
  exact Or.inr ⟨mip, rfl, hauto, d, hbody⟩

theorem atMostOne_points {points : List ConfAction}
    (h : points = [] ∨ ∃ mip, points = [mip] ∧ AutoMip s mip) : AtMostOne IsMip points := by
  rcases h with rfl | ⟨mip, rfl, hmip⟩
  · exact Or.inl rfl
  · exact atMostOne_autoMip s hmip

theorem arranged_block {block : List ConfAction} (hblock : Block env s stage block s')
    (hrest : Arranged as ts) :
    Arranged (block ++ as) (.written (String.ofList stage) [] :: ts) := by
  cases hblock with
  | plain body offload final seq ttl mw hfinished hfinal =>
    refine .plain _ body as ts ?_ hrest
    intro d hno
    rw [hno] at hfinished
    exact hfinished
  | send iface mw hnone => exact .send _ iface [] as ts (Or.inl rfl) hrest
  | checkedSend iface mw hsome =>
    exact .send _ iface [autoCheck] as ts (Or.inr ⟨autoCheck, rfl, rfl, rfl⟩) hrest
  | add d newname pos writeseq ofNew ofPrev mw hknown hadded =>
    exact .add _ _ _ as ts (filledIn_added s hadded) hrest
  | del d delh edits mw hdelh hhdr hedits =>
    rw [deletedBlock, append_assoc, singleton_append]
    exact .del _ _ _ as ts (cleared_deleted delh edits) hrest

theorem arranged_lead {name : String} {lead : List ConfAction} {below : List Char → List StageText}
    {line : List Char} (hlead : Lead env s stage name lead)
    (hline : env.streamsSec name = some line) (hrest : Arranged as (below line)) :
    Arranged (lead ++ as) (expandStage env below stage) := by
  cases hlead with
  | jump hgoes =>
    simp only [expandStage, hgoes, hline, Option.map_some, Option.getD_some]
    exact hrest
  | elim d hgoes =>
    simp only [expandStage, hgoes, hline, Option.map_some, Option.getD_some]
    exact .elim _ d [] [] as _ (Or.inl rfl) (Or.inl rfl) hrest
  | pointedElim d pre post hgoes hpre hpost =>
    simp only [expandStage, hgoes, hline, Option.map_some, Option.getD_some]
    exact .elim _ d [pre] [post] as _ (atMostOne_autoMip s hpre)
      (atMostOne_autoMip s hpost) hrest

end Compiled

theorem arranged_of_produces {env : CompileEnv} {n : Nat} {s s' : StageState}
    {lines : List (List Char)} (h : Produces env n s lines as s') :
    Arranged as (lines.flatMap (expandStage env (expandBelow env n))) := by
  induction h with
  | nil n s => exact .nil
  | block n s s₁ s' stage rest block as hopen hgoes hblock hrest ih =>
    rw [flatMap_cons, expandStage, hgoes]
    exact arranged_block env s s₁ stage as _ hblock ih
  | jump n s j s' stage line name lead news as mw hopen hlead hline hnews hrest hadded hfinal
      hfresh hactions ih =>
    rw [flatMap_singleton]
    rw [← expandLine_eq] at ih
    exact arranged_lead env s stage as hlead hline ih
  | repl n s s' stage points d runs hopen hgoes hpoints hruns hstart hbranch hadded hfinal hfresh
      hactions ih =>
    have hsome : Nonempty BranchRun := ⟨⟨⟨"", [], false⟩, s, [], [], s⟩⟩
    have hrun : ∀ br ∈ d.pipelines, ∃ r ∈ runs, r.branch = br := by
      rw [hruns]
      exact fun br hbr => mem_map.mp hbr
    choose! run hmem hrun using hrun
    have hstarts : ∀ br ∈ d.pipelines, StartOf s br.name (run br).start ∧
        branchText env br.name = some (run br).line ∧
        br.actions = (run br).start.actions.reverse ++ (run br).acts := by
      intro br hbr
      have hstart := hstart (run br) (hmem br hbr)
      rw [BranchRun.StartsIn, hrun br hbr] at hstart
      exact hstart
    have htext : expandStage env (expandBelow env (n + 1)) stage =
        [.written (String.ofList stage)
          (d.pipelines.map fun br => (br.name, expandLine env n (run br).line))] := by
      simp only [expandStage, hgoes, expandBelow, map_map, List.cons.injEq, and_true,
        StageText.written.injEq, true_and]
      refine map_congr_left fun br hbr => ?_
      simp [(hstarts br hbr).2.1]
    rw [flatMap_singleton, htext]
    refine .repl _ d points (fun br => (run br).start.actions.reverse) (fun br => (run br).acts)
      (fun br => expandLine env n (run br).line) (atMostOne_points s hpoints) ?_
      (fun br hbr => (hstarts br hbr).2.2) ?_
    · intro br hbr
      rcases (hstarts br hbr).1 with ⟨k, mw, news, points', -, -, hb, hmip⟩
      rw [hb]
      rcases hmip with rfl | ⟨mip, rfl, hmip⟩
      · exact Or.inl rfl
      · exact atMostOne_autoMip _ hmip
    · intro br hbr
      rw [expandLine_eq]
      exact ih (run br) (hmem br hbr)

/-- The order of actions. Without the actions that the compiler generates, a
pipeline is the text of the stream's line, with the lines it goes on with put
in. The generated ones are a reduction at the start and what `Arranged` allows. -/
theorem parseActionsLine_arranged (env : CompileEnv) (stream : String) (line : List Char)
    (headers : List HeaderDescriptor) (actions : List ConfAction)
    (hparse : parseActionsLine env stream line headers = .ok actions) :
    UserWritten actions (expandLine env (maxDepth + 2) line) ∧
      ∃ start rest, actions = start ++ rest ∧
        AtMostOne (fun body => ∃ d, body = .ttlreduce d) start ∧
        Arranged rest (expandLine env (maxDepth + 2) line) := by
  rcases produces_parseActionsLine hparse with
    ⟨first, rest, as, s', -, -, hproduces, rfl⟩
  have harranged := arranged_of_produces hproduces
  rw [← expandLine_eq] at harranged
  have hstart : AtMostOne (fun body => ∃ d, body = .ttlreduce d)
      (initialState stream headers first).actions := by
    unfold initialState
    dsimp only
    split
    · exact Or.inl rfl
    · exact Or.inr ⟨_, rfl, rfl, _, rfl⟩
  exact ⟨userWritten_generated hstart.auto (userWritten_of_arranged harranged),
    _, as, rfl, hstart, harranged⟩

def untunnel : CompileEnv :=
  { iface := fun name => if name = "out" then some ⟨"out", none⟩ else none
    object := fun _ => none
    streamsSec := fun name => if name = "leave" then some "del mpls, send out".toList else none
    readConstant := fun _ _ _ _ => none
    scanDelay := fun _ => none
    scanLevel := fun _ => none }

/-- A stream that jumps. -/
theorem parseActionsLine_arranged_jump :
    ∃ actions, parseActionsLine untunnel "s" "ttlcheck, jump leave".toList
        [⟨"mpls", .mpls, []⟩, ⟨"dcw", .dcw, []⟩] = .ok actions ∧
      UserWritten actions (expandLine untunnel (maxDepth + 2) "ttlcheck, jump leave".toList) ∧
      (expandLine untunnel (maxDepth + 2) "ttlcheck, jump leave".toList).map StageText.text =
        ["ttlcheck", "del mpls", "send out"] := by
  have hok : (parseActionsLine untunnel "s" "ttlcheck, jump leave".toList
      [⟨"mpls", .mpls, []⟩, ⟨"dcw", .dcw, []⟩]).isOk = true := by
    decide +kernel
  cases hparse : parseActionsLine untunnel "s" "ttlcheck, jump leave".toList
      [⟨"mpls", .mpls, []⟩, ⟨"dcw", .dcw, []⟩] with
  | error e =>
    rw [hparse] at hok
    cases hok
  | ok actions =>
    exact ⟨actions, rfl, (parseActionsLine_arranged _ _ _ _ actions hparse).1, by decide +kernel⟩

end Dnt
