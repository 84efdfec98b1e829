import Dnt.Theory.Actions.Tokens

/-!
# What the Words of a Stage Say

The parts of an account of the words of a stage that forgets how they are read. All
data is looked up in the header list in front of the stage.

## Main definitions

* `stageGoes`: Where a line goes on after a stage, which is a matter of the words alone.
* `Known`: Where the data of an action comes from.
* `AutoMip`: What a generated maintenance point depends on.

## Theorems

* `known_openingBody`, `spelled_openingBody`: The first word of a stage.
* `processMp_eq`: A maintenance point is added behind what its addresses add.
-/

namespace Dnt

variable {headers : List ConfHeader} {name word token : String}

/-! ## Where a stage goes on -/

/-- The line of a branch, which is masked if only that one is there. -/
def branchText (env : CompileEnv) (name : String) : Option (List Char) :=
  (env.streamsSec name).or (env.streamsSec (name ++ ":masked"))

def openingBody (env : CompileEnv) (word : String) : Option (ActionBody ConfAction) :=
  match keywords.lookup word with
  | some body => some body
  | none =>
    match env.object word with
    | some obj =>
      match obj.type with
      | .seqgen => some (.seqgen (some obj))
      | .seqrec => some (.elim ⟨some obj, none, none⟩)
      | .pof => some (.pof (some obj))
      | .repl => some (.repl ⟨[], some obj, none⟩)
    | none => (env.streamsSec word).map fun _ => .jump (some word)

/-- Where a line goes on after a stage. -/
inductive StageGoes where
  /-- With the next stage, if there is one. -/
  | on
  /-- With another line, in place of the stage. -/
  | jump (name : String)
  /-- With another line, behind the stage. -/
  | elim (name : String)
  /-- With the lines of some branches. -/
  | repl (names : List String)
  deriving DecidableEq, Repr

/-- The words of a stage say where to go on. An action, an object or a line can
be named first. -/
def stageGoes (env : CompileEnv) : List String → StageGoes
  | [] => .on
  | word :: args =>
    match openingBody env word with
    | some (.jump (some name)) => .jump name
    | some (.jump none) =>
      match args with
      | name :: _ => .jump name
      | [] => .on
    | some (.elim ⟨some _, _, _⟩) =>
      match args with
      | name :: _ => .elim name
      | [] => .on
    | some (.elim ⟨none, _, _⟩) =>
      match args with
      | _ :: name :: _ => .elim name
      | _ => .on
    | some (.repl _) => .repl (args.filter fun name => (branchText env name).isSome)
    | _ => .on

/-- An action that goes on where the words so far say. Unless it is settled
already, the next words will. -/
def Spelled (env : CompileEnv) (ws : List String) : ActionBody ConfAction → Prop
  | .undef => ws = []
  | .jump none => ∀ name more, stageGoes env (ws ++ name :: more) = .jump name
  | .jump (some name) => stageGoes env ws = .jump name
  | .elim ⟨none, none, _⟩ =>
    ∀ obj name more, stageGoes env (ws ++ obj :: name :: more) = .elim name
  | .elim ⟨some _, none, _⟩ => ∀ name more, stageGoes env (ws ++ name :: more) = .elim name
  | .elim ⟨some _, some name, _⟩ => stageGoes env ws = .elim name
  | .elim ⟨none, some _, _⟩ => False
  | .repl d => ∀ more, stageGoes env (ws ++ more) = .repl
      ((d.pipelines.map ReplicateBranch.name).reverse ++
        more.filter fun name => (branchText env name).isSome)
  | _ => ∀ more, stageGoes env (ws ++ more) = .on

/-- Actions behind which the next stage is executed, or nothing. -/
def staysOnLine : ActionBody ConfAction → Bool
  | .undef | .jump _ | .elim _ | .repl _ => false
  | _ => true

variable {body : ActionBody ConfAction} {d d' : AddAction} {env : CompileEnv} {h : ConfHeader}
  {actions news : List ConfAction} {mw : List MustWriteField} {ws : List String}
  {obj : PipelineObject}

theorem spelled_iff_of_staysOnLine (env : CompileEnv) (h : staysOnLine body = true) :
    Spelled env ws body ↔ ∀ more, stageGoes env (ws ++ more) = .on := by
  cases body <;> first | exact Iff.rfl | cases h

theorem Spelled.snoc {body' : ActionBody ConfAction} (token : String) (h : Spelled env ws body)
    (hbody : staysOnLine body = true) (hbody' : staysOnLine body' = true) :
    Spelled env (ws ++ [token]) body' := by
  rw [spelled_iff_of_staysOnLine env hbody']
  rw [spelled_iff_of_staysOnLine env hbody] at h
  intro more
  rw [List.append_assoc]
  exact h _

/-! ## Data of an action -/

/-- An assignment of an edit action, with the header that it names. -/
structure EditAssigned (env : CompileEnv) (headers : List ConfHeader) (x : ConfAssignment)
    (h : ConfHeader) (f : ProtocolField) : Prop where
  mem : h ∈ headers
  field : protocolGetFieldByName h.desc.id x.lhs.fieldName = some f
  name : h.desc.name = x.lhs.headerName
  lhs : x.lhs =
    { valueType := f.type
      value := initValue f.bitoffset f.bitcount
      field := newHeaderfield (headerIndex headers h) h f
      headerName := x.lhs.headerName
      fieldName := x.lhs.fieldName }
  proto : x.lhsProtoid = h.desc.id
  rhs : ∃ text, processAssignmentRhs env headers x.lhs x.lhsProtoid text = .ok (x.rhs, x.write)

/-- An assignment of an add action. The header has no index yet. -/
structure AddAssigned (env : CompileEnv) (headers : List ConfHeader) (d : AddAction)
    (x : ConfAssignment) (f : ProtocolField) : Prop where
  field : ∃ name, protocolGetFieldByName d.id name = some f
  valueType : x.lhs.valueType = f.type
  bitoffset : x.lhs.field.field.bitoffset = f.bitoffset
  bitcount : x.lhs.field.field.bitcount = f.bitcount
  headerName : d.newname = some x.lhs.headerName
  fieldName : x.lhs.fieldName = f.name
  proto : x.lhsProtoid = d.id
  rhs : ∃ lhs text, parseAssignment x.text = some (lhs, text) ∧
    processAssignmentRhs env headers x.lhs d.id text = .ok (x.rhs, x.write)

/-- The data of an action that is being read, by where it comes from. -/
def Known (env : CompileEnv) (headers : List ConfHeader) : ActionBody ConfAction → Prop
  | .add d =>
    (∀ pos ∈ d.pos, pos ∈ headers) ∧
      (∀ name ∈ d.newname, d.id = protocolIdFromType (headerTypeFromName name) ∧
        d.len = (protocolFromId d.id).bytelength) ∧
      ∀ x ∈ d.assignments, ∃ f, AddAssigned env headers d x f
  | .checksum d | .verify d =>
    (∀ f ∈ d.field, ∃ h ∈ headers,
      headerGetFieldOfType h (headerIndex headers h) .checksum = some f) ∧
      (hasPseudoHeader d.hdrProto = true → ∃ h, headers[d.ipIdx]? = some h ∧ h.tag = d.ipTag)
  | .del d => ∀ h ∈ d.hdr, h ∈ headers
  | .edit assignments addedAt =>
    addedAt = none ∧ ∀ x ∈ assignments, ∃ h f, EditAssigned env headers x h f
  | .filteroam _ => False
  | .oam _ d => d.address = []
  | .metadata op field => ∀ f ∈ field, ∃ h ∈ headers,
      metaField op h (headerIndex headers h) = some f
  | .setlength d => ∀ h ∈ d.hdr, h ∈ headers
  | .ttlreduce d => ∀ f ∈ d.field, ∃ h ∈ headers,
      headerGetFieldOfType h (headerIndex headers h) .ttl = some f ∧
        d.csum = headerGetFieldOfType h (headerIndex headers h) .checksum
  | _ => True

theorem known_keywords (env : CompileEnv) (headers : List ConfHeader)
    (h : keywords.lookup word = some body) : Known env headers body := by
  have hall : ∀ entry ∈ keywords, Known env headers entry.2 := by
    simp [keywords, Known, blankAdd, blankChecksum, blankOam, Option.mem_def, IsEmpty.forall_iff,
      hasPseudoHeader]
  exact hall _ (mem_keywords h)

/-- Actions of which only the first word has been read. -/
def Opened : ActionBody ConfAction → Prop
  | .undef => False
  | .elim d => d.pipename = none
  | .repl d => d.pipelines = []
  | _ => True

theorem known_openingBody (headers : List ConfHeader) (h : openingBody env word = some body) :
    Known env headers body ∧ Opened body := by
  unfold openingBody at h
  split at h
  · rename_i hkey
    cases h
    refine ⟨known_keywords env headers hkey, ?_⟩
    have hall : ∀ entry ∈ keywords, Opened entry.2 := by
      simp [keywords, Opened]
    exact hall _ (mem_keywords hkey)
  · split at h
    · rename_i obj hobj
      split at h
      · cases h
        exact ⟨trivial, trivial⟩
      · cases h
        exact ⟨trivial, rfl⟩
      · cases h
        exact ⟨trivial, trivial⟩
      · cases h
        exact ⟨trivial, rfl⟩
    · rcases Option.map_eq_some_iff.mp h with ⟨-, -, rfl⟩
      exact ⟨trivial, trivial⟩

theorem spelled_openingBody (h : openingBody env word = some body) : Spelled env [word] body := by
  have hopened := (known_openingBody [] h).2
  cases body with
  | undef => exact absurd hopened id
  | jump name =>
    cases name with
    | none =>
      intro name more
      simp [stageGoes, h]
    | some name => simp only [Spelled, stageGoes, h]
  | elim d =>
    rcases d with ⟨recov, pipename, stack⟩
    cases (hopened : pipename = none)
    cases recov with
    | none =>
      intro obj name more
      simp [stageGoes, h]
    | some obj =>
      intro name more
      simp [stageGoes, h]
  | repl d =>
    intro more
    simp [stageGoes, h, show d.pipelines = [] from hopened]
  | _ =>
    intro more
    simp [stageGoes, h]

theorem openingBody_keyword (env : CompileEnv) (h : keywords.lookup word = some body) :
    openingBody env word = some body := by
  simp only [openingBody, h]

theorem openingBody_object (h : keywords.lookup word = none) (hobj : env.object word = some obj) :
    openingBody env word = match obj.type with
      | .seqgen => some (.seqgen (some obj))
      | .seqrec => some (.elim ⟨some obj, none, none⟩)
      | .pof => some (.pof (some obj))
      | .repl => some (.repl ⟨[], some obj, none⟩) := by
  simp only [openingBody, h, hobj]

theorem headerListFindByName_name {next : List ConfHeader}
    (hfind : headerListFindByName headers name = some (h, next)) : h.desc.name = name := by
  induction headers with
  | nil => cases hfind
  | cons d ds ih =>
    unfold headerListFindByName at hfind
    grind

theorem findHeader_name {e1 e2 : CompileError} (hfind : findHeader headers name e1 e2 = .ok h) :
    h.desc.name = name := by
  unfold findHeader at hfind
  split at hfind
  · cases hfind
  · rename_i d next hlist
    split at hfind
    · cases hfind
    · cases hfind
      exact headerListFindByName_name hlist

section Tokens

variable (env : CompileEnv) (s : StageState) (a : ConfAction)

theorem known_tokenAddAssignment {newname : String} (hnew : d.newname = some newname)
    (hd : Known env s.headers (.add d)) (h : tokenAddAssignment env s a d newname token = .ok d') :
    Known env s.headers (.add d') := by
  unfold tokenAddAssignment at h
  rcases bind_eq_ok.mp h with ⟨⟨lhs, rhs⟩, hparse, h⟩
  rcases bind_eq_ok.mp h with ⟨f, hf, h⟩
  rcases bind_eq_ok.mp h with ⟨⟨r, w⟩, hrhs, h⟩
  cases h
  refine ⟨hd.1, hd.2.1, ?_⟩
  intro x hx
  rcases List.mem_cons.mp hx with rfl | hold
  · exact ⟨f, ⟨lhs, (orThrow_eq_ok).mp hf⟩, rfl, rfl, rfl, hnew, rfl, rfl, lhs, rhs,
      (orThrow_eq_ok).mp hparse, hrhs⟩
  · rcases hd.2.2 x hold with ⟨g, hg⟩
    exact ⟨g, { hg with }⟩

theorem known_tokenAdd (hd : Known env s.headers (.add d)) (h : tokenAdd env s a d token = .ok d') :
    Known env s.headers (.add d') := by
  unfold tokenAdd at h
  split at h
  · -- the header to add before or after
    rcases bind_eq_ok.mp h with ⟨pos, hpos, h⟩
    cases h
    refine ⟨?_, hd.2.1, fun x hx => ?_⟩
    · intro p hp
      cases hp
      exact tokenHeader_mem hpos
    · rcases hd.2.2 x hx with ⟨g, hg⟩
      exact ⟨g, { hg with }⟩
  · split at h
    · rcases bind_eq_ok.mp h with ⟨-, -, h⟩
      cases h
      refine ⟨hd.1, hd.2.1, fun x hx => ?_⟩
      rcases hd.2.2 x hx with ⟨g, hg⟩
      exact ⟨g, { hg with }⟩
    · split at h
      · -- the name and with it the type, before there are any assignments
        rename_i hnone
        rcases bind_eq_ok.mp h with ⟨-, -, h⟩
        cases h
        refine ⟨hd.1, ?_, fun x hx => ?_⟩
        · intro name hname
          cases hname
          exact ⟨rfl, rfl⟩
        · rcases hd.2.2 x hx with ⟨g, hg⟩
          have hno := hg.headerName
          rw [hnone] at hno
          cases hno
      · rename_i newname hnew
        exact known_tokenAddAssignment env s a hnew hd h

theorem known_tokenChecksum {d d' : ChecksumAction} (h : tokenChecksum s a d token = .ok d') :
    Known env s.headers (.checksum d') := by
  unfold tokenChecksum at h
  rcases bind_eq_ok.mp h with ⟨-, -, h⟩
  rcases bind_eq_ok.mp h with ⟨hdr, hhdr, h⟩
  rcases bind_eq_ok.mp h with ⟨field, hfield, h⟩
  have hfound : ∀ f ∈ some field, ∃ h ∈ s.headers,
      headerGetFieldOfType h (headerIndex s.headers h) .checksum = some f := by
    intro f hf
    cases hf
    exact ⟨hdr, tokenHeader_mem hhdr, (orThrow_eq_ok).mp hfield⟩
  split at h
  · -- IPv4 has no pseudo header
    cases h
    exact ⟨hfound, fun hno => by cases hno⟩
  · split at h
    · rcases bind_eq_ok.mp h with ⟨⟨i, version, tag⟩, hip, h⟩
      cases h
      refine ⟨hfound, fun _ => ?_⟩
      rcases lastIpHeader_getElem? 0 none ((orThrow_eq_ok).mp hip) with
        hno | ⟨-, e, he, htag⟩
      · cases hno
      · -- the search was in the headers in front of this one
        rw [Nat.sub_zero, List.getElem?_take] at he
        split at he
        · exact ⟨e, he, htag⟩
        · cases he
    · cases h

theorem known_tokenDel {d d' : DelAction} (h : tokenDel s a d token = .ok d') :
    Known env s.headers (.del d') := by
  unfold tokenDel at h
  rcases bind_eq_ok.mp h with ⟨-, -, h⟩
  rcases bind_eq_ok.mp h with ⟨delh, hdelh, h⟩
  cases h
  intro p hp
  cases hp
  exact tokenHeader_mem hdelh

theorem editAssigned_tokenEdit (token : String) {lhs rhs : String} {l : ConfLhs} {id : ProtocolID}
    {r : ConfRhs} {w : FieldWriter} (hlhs : processAssignmentLhs s lhs = .ok (l, id, mw))
    (hrhs : processAssignmentRhs env s.headers l id rhs = .ok (r, w)) :
    ∃ h f, EditAssigned env s.headers ⟨token, l, r, w, id⟩ h f := by
  unfold processAssignmentLhs at hlhs
  rcases bind_eq_ok.mp hlhs with ⟨⟨hdr, field⟩, -, hlhs⟩
  rcases bind_eq_ok.mp hlhs with ⟨h, hh, hlhs⟩
  rcases bind_eq_ok.mp hlhs with ⟨f, hf, hlhs⟩
  cases hlhs
  exact ⟨h, f, findHeader_mem hh, (orThrow_eq_ok).mp hf, findHeader_name hh, rfl, rfl, rhs, hrhs⟩

theorem known_tokenEdit {assignments assignments' : List ConfAssignment} {addedAt : Option Nat}
    (hd : Known env s.headers (.edit assignments addedAt))
    (h : tokenEdit env s a assignments token = .ok (assignments', mw)) :
    Known env s.headers (.edit assignments' addedAt) := by
  unfold tokenEdit at h
  rcases bind_eq_ok.mp h with ⟨⟨lhs, rhs⟩, -, h⟩
  rcases bind_eq_ok.mp h with ⟨⟨l, id, mw'⟩, hlhs, h⟩
  rcases bind_eq_ok.mp h with ⟨⟨r, w⟩, hrhs, h⟩
  cases h
  refine ⟨hd.1, ?_⟩
  intro x hx
  rcases List.mem_cons.mp hx with rfl | hold
  · exact editAssigned_tokenEdit env s token hlhs hrhs
  · exact hd.2 x hold

theorem known_tokenOam {kind : MpKind} {d d' : OamAction} (hd : Known env s.headers (.oam kind d))
    (h : tokenOam env s a d token = .ok d') : Known env s.headers (.oam kind d') := by
  unfold tokenOam at h
  split at h
  · cases h
    exact hd
  · split at h
    · rcases bind_eq_ok.mp h with ⟨level, -, h⟩
      rcases bind_eq_ok.mp h with ⟨-, -, h⟩
      cases h
      exact hd
    · split at h
      · rcases bind_eq_ok.mp h with ⟨obj, -, h⟩
        cases h
        exact hd
      · cases h

theorem known_tokenMetadata {op : MetaOp} {field : Option FieldRef} {f : FieldRef}
    (h : tokenMetadata s a op field token = .ok f) :
    Known env s.headers (.metadata op (some f)) := by
  unfold tokenMetadata at h
  rcases bind_eq_ok.mp h with ⟨-, -, h⟩
  rcases bind_eq_ok.mp h with ⟨hdr, hhdr, h⟩
  intro g hg
  cases hg
  exact ⟨hdr, tokenHeader_mem hhdr, (orThrow_eq_ok).mp h⟩

theorem known_tokenSetlength {d d' : SetlengthAction} (h : tokenSetlength s a d token = .ok d') :
    Known env s.headers (.setlength d') := by
  unfold tokenSetlength at h
  rcases bind_eq_ok.mp h with ⟨-, -, h⟩
  rcases bind_eq_ok.mp h with ⟨hdr, hhdr, h⟩
  cases h
  intro p hp
  cases hp
  exact tokenHeader_mem hhdr

theorem known_tokenTtlreduce {d d' : TtlAction} (h : tokenTtlreduce s a d token = .ok d') :
    Known env s.headers (.ttlreduce d') := by
  unfold tokenTtlreduce at h
  rcases bind_eq_ok.mp h with ⟨-, -, h⟩
  rcases bind_eq_ok.mp h with ⟨hdr, hhdr, h⟩
  rcases bind_eq_ok.mp h with ⟨field, hfield, h⟩
  cases h
  intro f hf
  cases hf
  exact ⟨hdr, tokenHeader_mem hhdr, (orThrow_eq_ok).mp hfield, rfl⟩

end Tokens

/-! ## Maintenance points -/

/-- Actions that neither add a header nor assign to one. -/
def quiet (a : ConfAction) : Bool :=
  match a.body with
  | .add _ | .edit _ _ => false
  | _ => true

/-- The actions in front of a point of a line, the newest first. -/
def StageState.history (s : StageState) : List ConfAction :=
  s.actions ++ s.parents.flatten

/-- The stack and the addresses of a maintenance point that is executed here. -/
def Addressed (s : StageState) (d : OamAction) : Prop :=
  ∃ stack, checkHeaderStackForOam s.headers = some stack ∧ d.protostack = some stack ∧
    d.address = (findAddressingForMp s.history (s.headers.take stack.length) ([], [])).1

def AutoMip (s : StageState) (mip : ConfAction) : Prop :=
  mip.auto = true ∧ ∃ d, mip.body = .oam .mip d ∧ Addressed s d

theorem lastTouch_quiet (actions : List ConfAction) (h : ∀ a ∈ news, quiet a = true) :
    lastTouch name (news ++ actions) = lastTouch name actions := by
  induction news with
  | nil => rfl
  | cons a news ih =>
    rcases List.forall_mem_cons.mp h with ⟨ha, hnews⟩
    rw [List.cons_append, lastTouch]
    unfold quiet at ha
    grind

theorem findAddressingForMp_quiet (found : List MpAddress × List MustWriteField)
    (h : ∀ a ∈ news, quiet a = true) : findAddressingForMp (news ++ actions) headers found =
      findAddressingForMp actions headers found := by
  induction headers generalizing found with
  | nil => rfl
  | cons d headers ih =>
    rw [findAddressingForMp, findAddressingForMp]
    simp only [addressingForHeader, lastTouch_quiet actions h, ih]

theorem findAddressingForMp_fst (address : List MpAddress) (mw mw' : List MustWriteField) :
    (findAddressingForMp actions headers (address, mw)).1 =
      (findAddressingForMp actions headers (address, mw')).1 := by
  induction headers generalizing address mw mw' with
  | nil => rfl
  | cons d headers ih =>
    rw [findAddressingForMp, findAddressingForMp]
    split
    all_goals exact ih _ _ _

theorem processMp_eq (s s' : StageState) (a : ConfAction) (rest : List ConfAction)
    (kind : MpKind) (d : OamAction) (news : List ConfAction) (s₀ : StageState)
    (hs : s.actions = news ++ s₀.actions) (hnews : ∀ a ∈ news, quiet a = true)
    (hparents : s.parents.flatten = s₀.parents.flatten) (hheaders : s.headers = s₀.headers)
    (hd : d.address = []) (h : processMp s a rest kind d = .ok s') :
    ∃ d' mw, s' = { s with actions := { a with body := .oam kind d' } :: rest, mustWrite := mw } ∧
      (kind ≠ .mepstop → Addressed s₀ d') := by
  unfold processMp at h
  rcases bind_eq_ok.mp h with ⟨name, -, h⟩
  rcases bind_eq_ok.mp h with ⟨-, -, h⟩
  rcases bind_eq_ok.mp h with ⟨stack, hstack, h⟩
  split at h
  · rename_i hkind
    cases h
    exact ⟨_, s.mustWrite, rfl, fun hno => absurd hkind hno⟩
  · cases h
    refine ⟨_, _, rfl, fun _ => ⟨stack, ?_, rfl, ?_⟩⟩
    · rw [← hheaders]
      exact (orThrow_eq_ok).mp hstack
    · simp only [hs, List.append_assoc, findAddressingForMp_quiet _ hnews, hparents, hheaders, hd]
      exact findAddressingForMp_fst _ _ _

theorem pushAutoMip_eq (s s' : StageState) (mip : ConfAction × OamAction)
    (news : List ConfAction) (s₀ : StageState) (h : pushAutoMip s mip = .ok s')
    (hs : s.actions = news ++ s₀.actions) (hnews : ∀ a ∈ news, quiet a = true)
    (hparents : s.parents.flatten = s₀.parents.flatten) (hheaders : s.headers = s₀.headers)
    (hmip : mip.1.body = .oam .mip mip.2) (hauto : mip.1.auto = true)
    (haddress : mip.2.address = []) :
    ∃ mip' mw, s' = { s with actions := mip' :: s.actions, mustWrite := mw } ∧ AutoMip s₀ mip' ∧
      quiet mip' = true := by
  unfold pushAutoMip at h
  split at h
  · rename_i s₁ hmp
    cases h
    have hquiet : ∀ a ∈ mip.1 :: news, quiet a = true := by
      refine List.forall_mem_cons.mpr ⟨?_, hnews⟩
      rw [quiet, hmip]
    rcases processMp_eq { s with actions := mip.1 :: s.actions } _ mip.1 s.actions .mip mip.2
      (mip.1 :: news) s₀ (congrArg (mip.1 :: ·) hs) hquiet hparents hheaders haddress hmp with
      ⟨d, mw, hs₁, haddressed⟩
    exact ⟨_, mw, hs₁, ⟨hauto, d, rfl, haddressed (by decide)⟩, rfl⟩
  · cases h

theorem autoMipBefore_eq {s s' : StageState} {a : ConfAction} {rest : List ConfAction}
    {text : String} (hactions : s.actions = a :: rest) (ha : quiet a = true)
    (h : autoMipBefore s text obj = .ok s') :
    ∃ mip mw, s' = { s with actions := a :: mip :: rest, mustWrite := mw } ∧
      AutoMip { s with actions := rest } mip ∧ quiet mip = true := by
  unfold autoMipBefore at h
  rcases (@bind_eq_ok _ _ _ _ _ _).mp h with ⟨s₁, hpush, h⟩
  cases h
  rcases pushAutoMip_eq s s₁ _ [a] { s with actions := rest } hpush hactions
    (List.forall_mem_singleton.mpr ha) rfl rfl rfl rfl rfl with ⟨mip, mw, hs₁, hmip, hquiet⟩
  refine ⟨mip, mw, ?_, hmip, hquiet⟩
  rw [hs₁]
  simp only [hactions, confactionSwapWithNext]

end Dnt
