import Dnt.Theory.Actions.Reading

/-!
# Blocks of a Line

What a single stage compiles to, if the line goes on with the next stage. The
compiler builds its list newest first and puts generated actions in front of or
behind the one that was written.

## Main definitions

* `Block`: The actions of a stage in the order of execution, and the state behind it.
* `Added`: The parts of an insertion.

## Theorems

* `headersOk_of_block`: Blocks keep the headers of the list apart.
-/

namespace Dnt

variable {d : AddAction} {a : ConfAction} {pos : ConfHeader} {newname : String}

/-- How to set the length of a header, by the headers of the packet. -/
def lengthOf (headers : List ConfHeader) (hdr : ConfHeader) (base : Nat) : SetlengthAction :=
  let idx := headerIndex headers hdr
  let behind := (headers.drop (idx + 1)).filter fun h => decide (h.desc.id ≠ .payload)
  let payloadIdx := headers.findIdx fun h => h.desc.id = .payload
  { hdr := some hdr
    field := (protocolGetFieldByName hdr.desc.id "length").map (newHeaderfield idx hdr)
    baselen := base + (behind.map fun h => (protocolFromId h.desc.id).bytelength).sum
    payloadIdx := payloadIdx
    payloadTag := headers[payloadIdx]?.map ConfHeader.tag }

/-- The data of an action that goes with no others, by where it comes from. -/
def Finished (env : CompileEnv) (s : StageState) : ActionBody ConfAction → Prop
  | .checksum d | .verify d =>
    (∃ f h, d.field = some f ∧ h ∈ s.headers ∧
      headerGetFieldOfType h (headerIndex s.headers h) .checksum = some f) ∧
      (hasPseudoHeader d.hdrProto = true → ∃ h, s.headers[d.ipIdx]? = some h ∧ h.tag = d.ipTag)
  | .edit assignments addedAt =>
    addedAt = none ∧ ∀ x ∈ assignments, ∃ h f, EditAssigned env s.headers x h f
  | .oam kind d => kind ≠ .mepstop → Addressed s d
  | .metadata op field => ∃ f h, field = some f ∧ h ∈ s.headers ∧
      metaField op h (headerIndex s.headers h) = some f
  | .setlength d => ∃ hdr base, hdr ∈ s.headers ∧ setlengthBase hdr.desc.id = some base ∧
      d = lengthOf s.headers hdr base
  | .ttlreduce d => ∃ f h, d.field = some f ∧ h ∈ s.headers ∧
      headerGetFieldOfType h (headerIndex s.headers h) .ttl = some f ∧
      d.csum = headerGetFieldOfType h (headerIndex s.headers h) .checksum
  | .delay _ | .drop | .pof _ | .seqgen _ | .ttlcheck => True
  | _ => False

def userAction (stage : List Char) (body : ActionBody ConfAction) : ConfAction :=
  ⟨String.ofList stage, false, body⟩

/-- The check that is put in front of a send. -/
def autoCheck : ConfAction :=
  ⟨"auto-check before send", true, .ttlcheck⟩

def addedHeader (s : StageState) (d : AddAction) (newname : String) : ConfHeader :=
  ⟨s.fresh, s.fresh, ⟨newname, d.id, []⟩⟩

def addedIdx (s : StageState) (d : AddAction) (pos : ConfHeader) : Nat :=
  if d.beforeafter = .after then headerIndex s.headers pos + 1 else headerIndex s.headers pos

/-- The parts of an insertion: where it is, and what is made up for it. -/
structure Added (s : StageState) (a : ConfAction) (d : AddAction) (newname : String)
    (pos : ConfHeader) (writeseq : List ConfAction) (ofNew ofPrev : List ConfAssignment) :
    Prop where
  newname_eq : d.newname = some newname
  pos_eq : d.pos = some pos
  direction : d.beforeafter ≠ .unknown
  writeseq_eq :
    writeseqForNew s a (addedHeader s d newname) (addedIdx s d pos) = .ok writeseq
  ofNew_eq : nexthdrOfNew s a
    (d.assignments.map (fixHeaderIdx (addedIdx s d pos) (addedHeader s d newname)))
    (addedHeader s d newname) (addedIdx s d pos)
    (if addedIdx s d pos = 0 then none else s.headers[addedIdx s d pos - 1]?)
    s.headers[addedIdx s d pos]? = .ok ofNew
  ofPrev_eq : nexthdrOfPrev s a (addedHeader s d newname) (addedIdx s d pos)
    (if addedIdx s d pos = 0 then none else s.headers[addedIdx s d pos - 1]?) = .ok ofPrev

/-- The assignments of an insertion, the last one to be executed first. -/
def addedEdits (s : StageState) (d : AddAction) (newname : String) (pos : ConfHeader)
    (ofNew ofPrev : List ConfAssignment) : List ConfAssignment :=
  d.assignments.map (fixHeaderIdx (addedIdx s d pos) (addedHeader s d newname)) ++ ofPrev ++
    ofNew ++ defaultAssignment (addedHeader s d newname) (addedIdx s d pos)

/-- The edit action of an insertion, if there is anything to assign. -/
def addedEdit (a : ConfAction) (posIdx : Nat) (edits : List ConfAssignment) : List ConfAction :=
  if edits.isEmpty = true then []
  else [⟨"assignments for " ++ a.text, true, .edit edits.reverse (some posIdx)⟩]

def addedAction (s : StageState) (d : AddAction) (pos : ConfHeader) : AddAction :=
  { d with posIdx := addedIdx s d pos, assignments := [], newTag := s.fresh }

def addedBlock (s : StageState) (a : ConfAction) (d : AddAction) (newname : String)
    (pos : ConfHeader) (writeseq : List ConfAction) (ofNew ofPrev : List ConfAssignment) :
    List ConfAction :=
  { a with body := .add (addedAction s d pos) } ::
    (writeseq ++ writetsForNew a (addedHeader s d newname) (addedIdx s d pos) ++
      addedEdit a (addedIdx s d pos) (addedEdits s d newname pos ofNew ofPrev))

def deletedEdit (a : ConfAction) (edits : List ConfAssignment) : List ConfAction :=
  if edits.isEmpty = true then []
  else [⟨"set nexthdr for " ++ a.text, true, .edit edits none⟩]

def deletedBlock (s : StageState) (a : ConfAction) (d : DelAction) (delh : ConfHeader)
    (edits : List ConfAssignment) : List ConfAction :=
  filterForDel delh (headerIndex s.headers delh) ++ deletedEdit a edits ++
    [{ a with body := .del { d with idx := headerIndex s.headers delh } }]

/-- The actions of a stage in the order of execution, and the state behind it. -/
inductive Block (env : CompileEnv) (s : StageState) (stage : List Char) :
    List ConfAction → StageState → Prop where
  | plain (body : ActionBody ConfAction) (offload final seq ttl : Bool)
      (mw : List MustWriteField) (hfinished : Finished env s body)
      (hfinal : final = true ↔ body = .drop) :
      Block env s stage [userAction stage body]
        { s with
          actions := userAction stage body :: s.actions
          hadDelayOffload := offload
          hadFinal := final
          seqSet := seq
          ttlSet := ttl
          mustWrite := mw }
  | send (iface : Option Interface) (mw : List MustWriteField) (hnone : s.needsTtlcheck = none) :
      Block env s stage [userAction stage (.send iface)]
        { s with actions := userAction stage (.send iface) :: s.actions, mustWrite := mw }
  | checkedSend (iface : Option Interface) (mw : List MustWriteField)
      (hsome : s.needsTtlcheck.isSome = true) :
      Block env s stage [autoCheck, userAction stage (.send iface)]
        { s with
          actions := userAction stage (.send iface) :: autoCheck :: s.actions
          needsTtlcheck := none
          mustWrite := mw }
  | add (d : AddAction) (newname : String) (pos : ConfHeader) (writeseq : List ConfAction)
      (ofNew ofPrev : List ConfAssignment) (mw : List MustWriteField)
      (hknown : Known env s.headers (.add d))
      (hadded : Added s (userAction stage (.add d)) d newname pos writeseq ofNew ofPrev) :
      Block env s stage
        (addedBlock s (userAction stage (.add d)) d newname pos writeseq ofNew ofPrev)
        { s with
          actions := (addedBlock s (userAction stage (.add d)) d newname pos writeseq ofNew
            ofPrev).reverse ++ s.actions
          headers := s.headers.insertIdx (addedIdx s d pos) (addedHeader s d newname)
          mustWrite := mw
          fresh := s.fresh + 1
          added := ⟨s.headers, pos, d.beforeafter, d.assignments.map ConfAssignment.text⟩ ::
            s.added }
  | del (d : DelAction) (delh : ConfHeader) (edits : List ConfAssignment)
      (mw : List MustWriteField) (hdelh : delh ∈ s.headers) (hhdr : d.hdr = some delh)
      (hedits : nexthdrOfDel s (userAction stage (.del d)) delh (headerIndex s.headers delh) =
        .ok edits) :
      Block env s stage (deletedBlock s (userAction stage (.del d)) d delh edits)
        { s with
          actions := (deletedBlock s (userAction stage (.del d)) d delh edits).reverse ++ s.actions
          headers := s.headers.eraseIdx (headerIndex s.headers delh)
          needsTtlcheck := if s.needsTtlcheck = some delh.addr then none else s.needsTtlcheck
          mustWrite := mw }

def generated : ActionBody ConfAction → Bool
  | .edit _ _ | .filteroam _ | .metadata _ _ => true
  | _ => false

variable {env : CompileEnv} {stage : List Char} {block writeseq : List ConfAction}
  {edits ofNew ofPrev : List ConfAssignment} {mw : List MustWriteField} {s s' : StageState}

theorem metadata_added (h : Added s a d newname pos writeseq ofNew ofPrev) :
    ∀ b ∈ writeseq ++ writetsForNew a (addedHeader s d newname) (addedIdx s d pos), ∃ op f, b.body =
        .metadata op (some (newHeaderfield (addedIdx s d pos) (addedHeader s d newname) f)) := by
  refine List.forall_mem_append.mpr ⟨?_, ?_⟩
  · have hok := h.writeseq_eq
    unfold writeseqForNew at hok
    split at hok
    · cases hok
      exact nofun
    · rename_i f hf
      rcases bind_eq_ok.mp hok with ⟨-, -, hok⟩
      cases hok
      exact List.forall_mem_singleton.mpr ⟨_, f, rfl⟩
  · unfold writetsForNew
    grind

theorem generated_added (h : Added s a d newname pos writeseq ofNew ofPrev) :
    ∀ b ∈ writeseq ++ writetsForNew a (addedHeader s d newname) (addedIdx s d pos) ++
      addedEdit a (addedIdx s d pos) edits, generated b.body = true := by
  refine List.forall_mem_append.mpr ⟨fun b hb => ?_, ?_⟩
  · rcases metadata_added h b hb with ⟨op, f, hbody⟩
    rw [hbody]
    rfl
  · unfold addedEdit
    split
    · exact nofun
    · exact List.forall_mem_singleton.mpr rfl

theorem generated_deleted {delh : ConfHeader} {idx : Nat} :
    ∀ b ∈ filterForDel delh idx ++ deletedEdit a edits, generated b.body = true := by
  refine List.forall_mem_append.mpr ⟨?_, ?_⟩
  · unfold filterForDel
    split
    · exact nofun
    · exact List.forall_mem_singleton.mpr rfl
  · unfold deletedEdit
    split
    · exact nofun
    · exact List.forall_mem_singleton.mpr rfl

theorem reverse_of_writeseqForNew {newheader : ConfHeader} {posIdx : Nat}
    (h : writeseqForNew s a newheader posIdx = .ok writeseq) : writeseq.reverse = writeseq := by
  unfold writeseqForNew at h
  split at h
  · cases h
    rfl
  · rcases bind_eq_ok.mp h with ⟨-, -, h⟩
    cases h
    rfl

theorem reverse_writetsForNew (a : ConfAction) (newheader : ConfHeader) (posIdx : Nat) :
    (writetsForNew a newheader posIdx).reverse = writetsForNew a newheader posIdx := by
  unfold writetsForNew
  split
  · rfl
  · rfl

theorem reverse_filterForDel (delh : ConfHeader) (idx : Nat) :
    (filterForDel delh idx).reverse = filterForDel delh idx := by
  unfold filterForDel
  split
  · rfl
  · rfl

theorem block_processAdd (hknown : Known env s.headers (.add d)) (h : processAdd
      { s with actions := userAction stage (.add d) :: s.actions, mustWrite := mw }
      (userAction stage (.add d)) s.actions d = .ok s') : ∃ block, Block env s stage block s' := by
  unfold processAdd at h
  rcases bind_eq_ok.mp h with ⟨newname, hnew, h⟩
  rcases bind_eq_ok.mp h with ⟨pos, hpos, h⟩
  rcases bind_eq_ok.mp h with ⟨⟨⟩, hdirection, h⟩
  rcases bind_eq_ok.mp h with ⟨writeseq, hseq, h⟩
  rcases bind_eq_ok.mp h with ⟨ofNew, hofNew, h⟩
  rcases bind_eq_ok.mp h with ⟨ofPrev, hofPrev, h⟩
  have hadded : Added s (userAction stage (.add d)) d newname pos writeseq ofNew ofPrev :=
    { newname_eq := (orThrow_eq_ok).mp hnew
      pos_eq := (orThrow_eq_ok).mp hpos
      direction := (require_eq_ok).mp hdirection
      writeseq_eq := hseq
      ofNew_eq := hofNew
      ofPrev_eq := hofPrev }
  have hblock := @Block.add env s stage d newname pos writeseq ofNew ofPrev mw hknown hadded
  -- newest first, each of the generated lists has at most one action
  have hreverse : (addedBlock s (userAction stage (.add d)) d newname pos writeseq ofNew
      ofPrev).reverse ++ s.actions =
      addedEdit (userAction stage (.add d)) (addedIdx s d pos)
        (addedEdits s d newname pos ofNew ofPrev) ++
      writetsForNew (userAction stage (.add d)) (addedHeader s d newname) (addedIdx s d pos) ++
      writeseq ++ { userAction stage (.add d) with body := .add (addedAction s d pos) } ::
        s.actions := by
    have hedit : ∀ edits, (addedEdit (userAction stage (.add d)) (addedIdx s d pos) edits).reverse =
        addedEdit (userAction stage (.add d)) (addedIdx s d pos) edits := by
      intro edits
      unfold addedEdit
      split
      · rfl
      · rfl
    simp [addedBlock, hedit, reverse_writetsForNew, reverse_of_writeseqForNew hseq]
  rw [hreverse] at hblock
  rw [← Except.ok.inj h]
  exact ⟨_, hblock⟩

theorem block_processDel {d : DelAction} (hknown : Known env s.headers (.del d)) (h : processDel
      { s with actions := userAction stage (.del d) :: s.actions, mustWrite := mw }
      (userAction stage (.del d)) s.actions d = .ok s') : ∃ block, Block env s stage block s' := by
  unfold processDel at h
  rcases bind_eq_ok.mp h with ⟨delh, hdelh, h⟩
  rcases bind_eq_ok.mp h with ⟨edits, hedits, h⟩
  have hhdr := (orThrow_eq_ok).mp hdelh
  have hblock := @Block.del env s stage d delh edits
    (mw.filter fun mw => decide (mw.header.addr ≠ delh.addr)) (hknown delh hhdr) hhdr hedits
  have hreverse : (deletedBlock s (userAction stage (.del d)) d delh edits).reverse ++ s.actions =
      { userAction stage (.del d) with
        body := .del { d with idx := headerIndex s.headers delh } } ::
        (deletedEdit (userAction stage (.del d)) edits ++
          filterForDel delh (headerIndex s.headers delh) ++ s.actions) := by
    have hedit : (deletedEdit (userAction stage (.del d)) edits).reverse =
        deletedEdit (userAction stage (.del d)) edits := by
      unfold deletedEdit
      split
      · rfl
      · rfl
    simp [deletedBlock, hedit, reverse_filterForDel]
  rw [hreverse] at hblock
  rw [← Except.ok.inj h]
  exact ⟨_, hblock⟩

theorem actions_of_block (h : Block env s stage block s') :
    s'.actions = block.reverse ++ s.actions := by
  cases h <;> rfl

theorem fresh_of_block (h : Block env s stage block s') : s.fresh ≤ s'.fresh := by
  cases h with
  | add => exact Nat.le_succ _
  | _ => exact Nat.le_refl _

theorem addedIdx_le (hok : HeadersOk s.headers s.fresh) (hknown : Known env s.headers (.add d))
    (hadded : Added s a d newname pos writeseq ofNew ofPrev) :
    addedIdx s d pos ≤ s.headers.length := by
  have hlt := headerIndex_lt hok (hknown.1 pos hadded.pos_eq)
  unfold addedIdx
  split
  · exact hlt
  · exact Nat.le_of_lt hlt

theorem headersOk_of_block (hok : HeadersOk s.headers s.fresh) (h : Block env s stage block s') :
    HeadersOk s'.headers s'.fresh := by
  cases h with
  | add d newname pos writeseq ofNew ofPrev mw hknown hadded =>
    exact headersOk_insertIdx hok (addedIdx_le hok hknown hadded)
  | del => exact headersOk_eraseIdx hok
  | _ => exact hok

theorem headersOk_of_startOf {b : StageState} {name : String} (hok : HeadersOk s.headers s.fresh)
    (h : StartOf s name b) : HeadersOk b.headers b.fresh := by
  rcases h with ⟨k, mw, news, points, hle, -, rfl, -⟩
  exact headersOk_copyHeaderList (hok.mono hle)

section Plain

variable (env : CompileEnv) (s s' : StageState) (stage : List Char) (mw : List MustWriteField)

theorem block_processDelay {d : DelayAction} (h : processDelay
      { s with actions := userAction stage (.delay d) :: s.actions, mustWrite := mw }
      (userAction stage (.delay d)) d = .ok s') (hopen : s.hadFinal = false) :
    ∃ block, Block env s stage block s' := by
  unfold processDelay at h
  rcases bind_eq_ok.mp h with ⟨-, -, h⟩
  rcases bind_eq_ok.mp h with ⟨-, -, h⟩
  have hno : s.hadFinal = true ↔ (.delay d : ActionBody ConfAction) = .drop := by grind
  split at h
  · cases h
    exact ⟨_, .plain (.delay d) true s.hadFinal s.seqSet s.ttlSet mw trivial hno⟩
  · rcases bind_eq_ok.mp h with ⟨-, -, h⟩
    cases h
    exact ⟨_, .plain (.delay d) s.hadDelayOffload s.hadFinal s.seqSet s.ttlSet mw trivial hno⟩

theorem block_processSend {iface : Option Interface} (h : processSend
      { s with actions := userAction stage (.send iface) :: s.actions, mustWrite := mw }
      (userAction stage (.send iface)) s.actions iface = .ok s') :
    ∃ block, Block env s stage block s' := by
  unfold processSend at h
  rcases bind_eq_ok.mp h with ⟨-, -, h⟩
  split at h
  · rename_i hsome
    rcases bind_eq_ok.mp h with ⟨-, -, h⟩
    cases h
    exact ⟨_, .checkedSend iface mw hsome⟩
  · rename_i hnone
    cases h
    exact ⟨_, .send iface mw (Option.not_isSome_iff_eq_none.mp hnone)⟩

theorem block_processAction {sub : SubCompiler} {body : ActionBody ConfAction}
    (hopen : s.hadFinal = false) (hstays : staysOnLine body = true)
    (hknown : Known env s.headers body) (h : processAction env sub
      { s with actions := userAction stage body :: s.actions, mustWrite := mw }
      (userAction stage body) s.actions = .ok s') : ∃ block, Block env s stage block s' := by
  -- an action without any others, that is not the last one
  have hplain {body : ActionBody ConfAction} {seq ttl : Bool} {mw : List MustWriteField}
      (hs' : s' = { s with
        actions := userAction stage body :: s.actions
        seqSet := seq
        ttlSet := ttl
        mustWrite := mw })
      (hgoes : goesOn body = true) (hfinished : Finished env s body) :
      ∃ block, Block env s stage block s' := by
    rw [hs']
    refine ⟨_, .plain body s.hadDelayOffload s.hadFinal seq ttl mw hfinished ?_⟩
    rw [hopen]
    refine iff_of_false Bool.false_ne_true ?_
    rintro rfl
    cases hgoes
  have hfound {o : Option FieldRef} {e : CompileError} {u : Unit}
      (hsome : require (o.isSome = true) e = .ok u) : ∃ f, o = some f :=
    Option.isSome_iff_exists.mp (require_eq_ok.mp hsome)
  cases body with
  | undef | jump name | elim d | repl d => cases hstays
  | add d => exact block_processAdd hknown h
  | del d => exact block_processDel hknown h
  | delay d => exact block_processDelay env s s' stage mw h hopen
  | send iface => exact block_processSend env s s' stage mw h
  | filteroam field => exact absurd hknown id
  | drop =>
    cases h
    exact ⟨_, .plain .drop s.hadDelayOffload true s.seqSet s.ttlSet mw trivial
      (iff_of_true rfl rfl)⟩
  | checksum d | verify d =>
    rcases bind_eq_ok.mp h with ⟨⟨⟩, hsome, h⟩
    cases h
    rcases hfound hsome with ⟨f, hf⟩
    rcases hknown.1 f hf with ⟨hdr, hmem, hfield⟩
    exact hplain rfl rfl ⟨⟨f, hdr, hf, hmem, hfield⟩, hknown.2⟩
  | edit assignments addedAt =>
    rcases bind_eq_ok.mp h with ⟨-, -, h⟩
    cases h
    exact hplain rfl rfl ⟨hknown.1, fun x hx => hknown.2 x (List.mem_reverse.mp hx)⟩
  | oam kind d =>
    have hquiet : ∀ a ∈ [userAction stage (.oam kind d)], quiet a = true :=
      List.forall_mem_singleton.mpr rfl
    rcases processMp_eq
      { s with actions := userAction stage (.oam kind d) :: s.actions, mustWrite := mw }
      s' _ s.actions kind d _ s rfl hquiet rfl rfl hknown h with ⟨d', mw', hs', haddressed⟩
    exact hplain hs' rfl haddressed
  | pof pof =>
    rcases bind_eq_ok.mp h with ⟨-, -, h⟩
    rcases bind_eq_ok.mp h with ⟨-, -, h⟩
    cases h
    exact hplain rfl rfl trivial
  | metadata op field =>
    unfold processAction processMetadata at h
    rcases bind_eq_ok.mp h with ⟨⟨⟩, hsome, h⟩
    rcases hfound hsome with ⟨f, hf⟩
    rcases hknown f hf with ⟨hdr, hmem, hfield⟩
    have hfinished : Finished env s (.metadata op field) := ⟨f, hdr, hf, hmem, hfield⟩
    cases op with
    | writeseq =>
      rcases bind_eq_ok.mp h with ⟨-, -, h⟩
      cases h
      exact hplain rfl rfl hfinished
    | readseq | readtstamp | writetstamp =>
      cases h
      exact hplain rfl rfl hfinished
  | setlength d =>
    unfold processAction processSetlength at h
    rcases bind_eq_ok.mp h with ⟨hdr, hhdr, h⟩
    rcases bind_eq_ok.mp h with ⟨base, hbase, h⟩
    have hd := (orThrow_eq_ok).mp hhdr
    refine @hplain (.setlength (lengthOf s.headers hdr base)) s.seqSet s.ttlSet mw ?_ rfl
      ⟨hdr, base, hknown hdr hd, (orThrow_eq_ok).mp hbase, rfl⟩
    rw [← Except.ok.inj h, lengthOf, ← hd]
    rfl
  | seqgen gen | ttlcheck =>
    rcases bind_eq_ok.mp h with ⟨-, -, h⟩
    cases h
    exact hplain rfl rfl trivial
  | ttlreduce d =>
    rcases bind_eq_ok.mp h with ⟨⟨⟩, hsome, h⟩
    cases h
    rcases hfound hsome with ⟨f, hf⟩
    rcases hknown f hf with ⟨hdr, hmem, hfield, hcsum⟩
    exact hplain rfl rfl ⟨f, hdr, hf, hmem, hfield, hcsum⟩

end Plain

end Dnt
