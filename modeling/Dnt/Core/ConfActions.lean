import Dnt.Core.ConfOam

/-!
# Compiling an Actions Line

`conf_actions.c`, from the words of a stage to the list of actions. Jumps and replicate
actions compile other lines, one level deeper.

## Main definitions

* `processToken`: A word of a stage is filled into its action.
* `processAction`: What needs the action as a whole: it changes the header list and adds
  the actions that go with this one.
* `compileStages`: The stages of a line, with the number of levels left.
* `parseActionsLine`: The line of a stream.
-/

namespace Dnt

/-- The compiler one level deeper, if there is one. -/
abbrev SubCompiler : Type := Option (StageState → List Char → Compile StageState)

def confactionNameFromType : ActionBody ConfAction → String
  | .undef => "Undefined"
  | .add _ => "Add"
  | .checksum _ => "Checksum"
  | .del _ => "Del"
  | .delay _ => "Delay"
  | .drop => "Drop"
  | .edit _ _ => "Edit"
  | .elim _ => "Eliminate"
  | .filteroam _ => "FilterOAM"
  | .jump _ => "Jump"
  | .oam .mepstart _ => "MEPStart"
  | .oam .mepstop _ => "MEPStop"
  | .oam .mip _ => "MIP"
  | .pof _ => "POF"
  | .metadata .readseq _ => "ReadSeq"
  | .metadata .readtstamp _ => "ReadTstamp"
  | .metadata .writeseq _ => "WriteSeq"
  | .metadata .writetstamp _ => "WriteTstamp"
  | .repl _ => "Replicate"
  | .send _ => "Send"
  | .seqgen _ => "SeqGen"
  | .setlength _ => "Setlength"
  | .ttlcheck => "TTLCheck"
  | .ttlreduce _ => "TTLReduce"
  | .verify _ => "Verify"

/-! ## Words -/

def blankAdd (beforeafter : BeforeAfter) : AddAction :=
  { newname := none
    id := .payload
    pos := none
    beforeafter := beforeafter
    posIdx := 0
    len := 0
    assignments := []
    wasAdd := false
    newTag := 0 }

def blankChecksum : ChecksumAction :=
  { field := none, hdrProto := .payload, ipIdx := 0, ipVersion := .payload, ipTag := 0 }

def blankOam : OamAction :=
  { name := none
    stream := none
    level := -1
    obj := none
    protostack := none
    address := []
    autoGenerated := false }

def keywords : List (String × ActionBody ConfAction) :=
  [("after", .add (blankAdd .after)),
   ("before", .add (blankAdd .before)),
   ("checksum", .checksum blankChecksum),
   ("del", .del ⟨none, 0⟩),
   ("delay", .delay ⟨0, false⟩),
   ("drop", .drop),
   ("edit", .edit [] none),
   ("eliminate", .elim ⟨none, none, none⟩),
   ("jump", .jump none),
   ("mep-start", .oam .mepstart blankOam),
   ("mep-stop", .oam .mepstop blankOam),
   ("mip", .oam .mip blankOam),
   ("pof", .pof none),
   ("readseq", .metadata .readseq none),
   ("readtstamp", .metadata .readtstamp none),
   ("replicate", .repl ⟨[], none, none⟩),
   ("send", .send none),
   ("seqgen", .seqgen none),
   ("setlength", .setlength ⟨none, none, 0, 0, none⟩),
   ("ttlcheck", .ttlcheck),
   ("ttlreduce", .ttlreduce ⟨none, none⟩),
   ("verify", .verify blankChecksum),
   ("writeseq", .metadata .writeseq none),
   ("writetstamp", .metadata .writetstamp none)]

variable (env : CompileEnv) (sub : SubCompiler) (s : StageState) (a : ConfAction)
  (rest : List ConfAction)

def StageState.setBody (body : ActionBody ConfAction) : StageState :=
  { s with actions := { a with body := body } :: rest }

/-- Take a replication object for a replicate action, with a point in front of
it if the object asks for one. -/
def setReplobj (d : ReplAction ConfAction) (obj : PipelineObject) : Compile StageState :=
  let s := s.setBody a rest (.repl { d with replobj := some obj })
  if obj.autoMipLevel > 0 then autoMipBefore s a.text obj else .ok s

/-- The first word. It names an action, an object that acts, or an actions line
to jump to. -/
def tokenUndef (token : String) : Compile StageState :=
  match keywords.lookup token with
  | some body => .ok (s.setBody a rest body)
  | none =>
    -- objects and lines can be used without naming the action
    match env.object token with
    | some obj =>
      match obj.type with
      | .seqgen => .ok (s.setBody a rest (.seqgen (some obj)))
      | .seqrec => .ok (s.setBody a rest (.elim ⟨some obj, none, none⟩))
      | .pof => .ok (s.setBody a rest (.pof (some obj)))
      | .repl => setReplobj s a rest ⟨[], none, none⟩ obj
    | none =>
      match env.streamsSec token with
      | some _ => .ok (s.setBody a rest (.jump (some token)))
      | none =>
        .error (throwMsg s a ("'" ++ token ++ "' does not name an action, object or action list"))

def tokenHeader (token missing : String) : Compile ConfHeader :=
  findHeader s.headers token (throwMsg s a missing)
    (throwMsg s a ("header name '" ++ token ++ "' is ambiguous"))

/-- An assignment in an add action. The header it writes to has no index yet. -/
def tokenAddAssignment (d : AddAction) (newname token : String) : Compile AddAction := do
  let (lhs, rhs) ← orThrow (parseAssignment token)
    (throwMsg s a ("invalid field assignment '" ++ token ++ "'"))
  let f ← orThrow (protocolGetFieldByName d.id lhs)
    (throwMsg s a ("header " ++ newname ++ " has no field '" ++ lhs ++ "'"))
  let l : ConfLhs :=
    { valueType := f.type
      value := initValue f.bitoffset f.bitcount
      field := ⟨⟨0, f.bitoffset, f.bitcount⟩, d.newTag⟩
      headerName := newname
      fieldName := f.name }
  let (r, write) ← processAssignmentRhs env s.headers l d.id rhs
  return { d with assignments := ⟨token, l, r, write, d.id⟩ :: d.assignments }

def tokenAdd (d : AddAction) (token : String) : Compile AddAction :=
  match d.pos with
  | none => do
    let pos ← tokenHeader s a token ("no header named '" ++ token ++ "' in the packet")
    return { d with pos := some pos }
  | some _ =>
    if d.wasAdd = false then do
      require (token = "add") (throwMsg s a "the 'add' keyword is mising")
      return { d with wasAdd := true }
    else
      match d.newname with
      | none => do
        let type := headerTypeFromName token
        require (protocolTypeValid type = true)
          (throwMsg s a ("type is invalid for new header'" ++ token ++ "'"))
        let id := protocolIdFromType type
        return { d with newname := some token, id := id, len := (protocolFromId id).bytelength }
      | some newname => tokenAddAssignment env s a d newname token

/-- The last IP header in front of a header at `hdrIdx`: its index, version and
tag. -/
def lastIpHeader : List ConfHeader → Nat → Option (Nat × ProtocolID × Nat) →
    Option (Nat × ProtocolID × Nat)
  | [], _, found => found
  | h :: headers, hIdx, found =>
    lastIpHeader headers (hIdx + 1)
      (if h.desc.id = .ipv4 ∨ h.desc.id = .ipv6 then some (hIdx, h.desc.id, h.tag) else found)

/-- The protocols whose checksum covers a pseudo header. -/
def hasPseudoHeader (id : ProtocolID) : Bool :=
  id = .udp || id = .tcp || id = .icmpv4 || id = .icmpv6

def tokenChecksum (d : ChecksumAction) (token : String) : Compile ChecksumAction := do
  require (d.field.isNone = true) (throwMsg s a "this action only takes one argument")
  let hdr ← tokenHeader s a token ("invalid header '" ++ token ++ "'")
  let hdrIdx := headerIndex s.headers hdr
  let field ← orThrow (headerGetFieldOfType hdr hdrIdx .checksum)
    (throwMsg s a ("header '" ++ hdr.desc.name ++ "' doesn't have a checksum field"))
  if hdr.desc.id = .ipv4 then
    return { d with field := some field, hdrProto := .ipv4 }
  else if hasPseudoHeader hdr.desc.id = true then
    let (ipIdx, ipVersion, ipTag) ← orThrow (lastIpHeader (s.headers.take hdrIdx) 0 none)
      (throwMsg s a ("did not find IP header for " ++ protocolTypeFromId hdr.desc.id ++
        " checksum"))
    return ⟨some field, hdr.desc.id, ipIdx, ipVersion, ipTag⟩
  else
    .error (throwMsg s a ("don't know how to checksum protocol " ++
      protocolTypeFromId hdr.desc.id))

def tokenDel (d : DelAction) (token : String) : Compile DelAction := do
  require (d.hdr.isNone = true) (throwMsg s a "delete action takes only 1 parameter")
  let delh ← tokenHeader s a token ("invalid header '" ++ token ++ "' to delete")
  return { d with hdr := some delh }

/-- The delay counts as not given while it is zero. -/
def tokenDelay (d : DelayAction) (token : String) : Compile DelayAction :=
  if d.delayValue = 0 then do
    let value ← orThrow (env.scanDelay token) (throwMsg s a ("invalid delay '" ++ token ++ "'"))
    return { d with delayValue := value }
  else if d.offload = false then do
    require (token = "offload") (throwMsg s a
      "delay action requires a delay parameter and an optional offload parameter")
    return { d with offload := true }
  else .ok d

/-- An assignment in an edit action, and the fields still to be written. -/
def tokenEdit (assignments : List ConfAssignment) (token : String) :
    Compile (List ConfAssignment × List MustWriteField) := do
  let (lhs, rhs) ← orThrow (parseAssignment token)
    (throwMsg s a ("invalid assignment '" ++ token ++ "'"))
  let (l, lhsProtoid, mustWrite) ← processAssignmentLhs s lhs
  let (r, write) ← processAssignmentRhs env s.headers l lhsProtoid rhs
  return (⟨token, l, r, write, lhsProtoid⟩ :: assignments, mustWrite)

def tokenObject (token : String) (type : PipelineObjectType) (msg : String) :
    Compile PipelineObject:= do
  let obj ← orThrow (env.object token) (throwMsg s a msg)
  require (obj.type = type) (throwMsg s a msg)
  return obj

def tokenElim (d : ElimAction) (token : String) : Compile ElimAction :=
  match d.recov, d.pipename with
  | none, _ => do
    let obj ← tokenObject env s a token .seqrec
      "first argument of eliminate must be a recovery object"
    return { d with recov := some obj }
  | some _, none => .ok { d with pipename := some token }
  | some _, some _ =>
    .error (throwMsg s a "the arguments of eliminate are the recovery object and a pipeline")

def tokenOam (d : OamAction) (token : String) : Compile OamAction :=
  if d.name.isNone = true then
    .ok { d with name := some token, stream := some s.stream }
  else if d.level = -1 then do
    let level ← orThrow (env.scanLevel token) (throwMsg s a ("invalid OAM level '" ++ token ++ "'"))
    require (0 ≤ level ∧ level ≤ 7)
      (throwMsg s a ("invalid OAM level " ++ toString level ++ " (valid range is 0-7)"))
    return { d with level := level }
  else if d.obj.isNone = true then do
    let obj ← orThrow (env.object token)
      (throwMsg s a ("unknown object '" ++ token ++ "' for OAM action"))
    return { d with obj := some obj }
  else .error (throwMsg s a "too many arguments")

def tokenPof (pof : Option PipelineObject) (token : String) : Compile PipelineObject := do
  require (pof.isNone = true) (throwMsg s a "pof only takes one argument")
  tokenObject env s a token .pof "pof first argument must be a pof object"

def tokenSeqgen (gen : Option PipelineObject) (token : String) : Compile PipelineObject := do
  require (gen.isNone = true) (throwMsg s a "seqgen only takes one argument")
  tokenObject env s a token .seqgen "seqgen argument must be a sequence generator object"

/-- The field a metadata action uses. Sequence numbers can also be the ones of
segment routing. -/
def metaField (op : MetaOp) (hdr : ConfHeader) (hdrIdx : Nat) : Option FieldRef :=
  match op with
  | .readseq | .writeseq =>
    (headerGetFieldOfType hdr hdrIdx .tsnSeq).or (headerGetFieldOfType hdr hdrIdx .srv6Seq)
  | .readtstamp | .writetstamp => headerGetFieldOfType hdr hdrIdx .tsnTstamp

def metaFieldtype : MetaOp → ProtocolFieldType
  | .readseq | .writeseq => .tsnSeq
  | .readtstamp | .writetstamp => .tsnTstamp

def tokenMetadata (op : MetaOp) (field : Option FieldRef) (token : String) : Compile FieldRef := do
  require (field.isNone = true) (throwMsg s a "this action only takes one argument")
  let hdr ← tokenHeader s a token ("invalid header '" ++ token ++ "'")
  orThrow (metaField op hdr (headerIndex s.headers hdr))
    (throwMsg s a ("header '" ++ hdr.desc.name ++ "' doesn't have a field of type " ++
      fieldtypeNameFromType (metaFieldtype op)))

def copyHeaderList : List ConfHeader → Nat → List ConfHeader
  | [], _ => []
  | h :: headers, fresh => { h with addr := fresh } :: copyHeaderList headers (fresh + 1)

def copyMustwriteList (newheaders : List ConfHeader) : Option (List MustWriteField) :=
  s.mustWrite.mapM fun mw => do
    let nh ← newheaders[headerIndex s.headers mw.header]?
    return { mw with header := nh }

def branchLine (d : ReplAction ConfAction) (token : String) : Compile (Option (List Char × Bool)) :=
  match env.streamsSec token, env.streamsSec (token ++ ":masked") with
  | some _, some _ =>
    .error (throwMsg s a ("pipeline '" ++ token ++ "' is defined both as normal and masked"))
  | none, some pstring => do
    require (d.replobj.isSome = true) (throwMsg s a ("pipeline '" ++ token ++
      "' is masked but replicate has no state object"))
    return some (pstring, true)
  | some pstring, none => .ok (some (pstring, false))
  | none, none => .ok none

def branchState (token : String) (mustWrite : List MustWriteField) : StageState :=
  { s with
    stream := token
    headers := copyHeaderList s.headers s.fresh
    actions := []
    mustWrite := mustWrite
    parents := s.actions :: s.parents
    fresh := s.fresh + s.headers.length
    added := [] }

/-- The start of a branch, with a point if the object of the replicate action
asks for one. -/
def startBranch (d : ReplAction ConfAction) (token : String) (mustWrite : List MustWriteField) :
    Compile StageState:=
  match d.replobj with
  | some obj =>
    if obj.autoMipLevel > 0 then autoMipBranch (branchState s token mustWrite) a.text obj
    else .ok (branchState s token mustWrite)
  | none => .ok (branchState s token mustWrite)

def compileBranch (d : ReplAction ConfAction) (token : String) (pstring : List Char) :
    Compile StageState:= do
  let compile ← orThrow sub (throwMsg s a "jump depth exceeded")
  let mustWrite ← orThrow (copyMustwriteList s (copyHeaderList s.headers s.fresh))
    (throwMsg s a "failed to copy the must_write list?!?")
  let pstst ← startBranch s a d token mustWrite
  let pstst ← compile pstst pstring
  require (pstst.actions.isEmpty = false)
    (throwMsg s a ("no actions in pipeline '" ++ token ++ "'"))
  return pstst

/-- A word of a replicate action: a branch, or the object in front of them. What the source
frees when a branch fails, with `CLEANUP_PSTST`, is not modelled. -/
def tokenRepl (d : ReplAction ConfAction) (token : String) : Compile StageState := do
  match ← branchLine env s a d token with
  | none =>
    require (d.replobj.isNone = true ∧ d.pipelines.isEmpty = true)
      (throwMsg s a ("pipeline or object '" ++ token ++ "' not found"))
    let obj ← orThrow (env.object token)
      (throwMsg s a ("pipeline or object '" ++ token ++ "' not found"))
    require (obj.type = .repl)
      (throwMsg s a "state of replicate action must be a Replicate object")
    setReplobj s a rest d obj
  | some (pstring, masked) =>
    let pstst ← compileBranch sub s a d token pstring
    let branch : ReplicateBranch ConfAction := ⟨token, pstst.actions.reverse, masked⟩
    return { s.setBody a rest (.repl { d with pipelines := branch :: d.pipelines }) with
      fresh := pstst.fresh
      added := pstst.added ++ s.added }

def tokenSetlength (d : SetlengthAction) (token : String) : Compile SetlengthAction := do
  require (d.hdr.isNone = true) (throwMsg s a "setlength only takes one argument")
  let hdr ← tokenHeader s a token ("no header named '" ++ token ++ "' in the packet")
  return { d with hdr := some hdr }

def tokenTtlreduce (d : TtlAction) (token : String) : Compile TtlAction := do
  require (d.field.isNone = true) (throwMsg s a "this action only takes one argument")
  let hdr ← tokenHeader s a token ("invalid header '" ++ token ++ "'")
  let idx := headerIndex s.headers hdr
  let field ← orThrow (headerGetFieldOfType hdr idx .ttl)
    (throwMsg s a ("header '" ++ hdr.desc.name ++ "' doesn't have a TTL field"))
  return ⟨some field, headerGetFieldOfType hdr idx .checksum⟩

def processToken (token : String) : Compile StageState :=
  match s.actions with
  | [] => .error .fault
  | a :: rest =>
    match a.body with
    | .undef => tokenUndef env s a rest token
    | .add d => do return s.setBody a rest (.add (← tokenAdd env s a d token))
    | .checksum d => do return s.setBody a rest (.checksum (← tokenChecksum s a d token))
    | .verify d => do return s.setBody a rest (.verify (← tokenChecksum s a d token))
    | .del d => do return s.setBody a rest (.del (← tokenDel s a d token))
    | .delay d => do return s.setBody a rest (.delay (← tokenDelay env s a d token))
    | .drop => .error (throwMsg s a "drop action doesn't take parameters")
    | .edit assignments addedAt => do
      let (assignments, mustWrite) ← tokenEdit env s a assignments token
      return { s.setBody a rest (.edit assignments addedAt) with mustWrite := mustWrite }
    | .elim d => do return s.setBody a rest (.elim (← tokenElim env s a d token))
    | .filteroam _ => .ok s
    | .jump none => .ok (s.setBody a rest (.jump (some token)))
    | .jump (some _) =>
      .error (throwMsg s a "the only argument is the name of an action pipeline")
    | .oam kind d => do return s.setBody a rest (.oam kind (← tokenOam env s a d token))
    | .pof pof => do return s.setBody a rest (.pof (some (← tokenPof env s a pof token)))
    | .metadata op field => do
      return s.setBody a rest (.metadata op (some (← tokenMetadata s a op field token)))
    | .repl d => tokenRepl env sub s a rest d token
    | .send none => do
      let iface ← orThrow (env.iface token)
        (throwMsg s a ("unknown interface '" ++ token ++ "'"))
      return s.setBody a rest (.send (some iface))
    | .send (some _) => .error (throwMsg s a "we can only send on one interface at once")
    | .seqgen gen => do
      return s.setBody a rest (.seqgen (some (← tokenSeqgen env s a gen token)))
    | .setlength d => do return s.setBody a rest (.setlength (← tokenSetlength s a d token))
    | .ttlcheck => .error (throwMsg s a "ttlcheck action doesn't take parameters")
    | .ttlreduce d => do return s.setBody a rest (.ttlreduce (← tokenTtlreduce s a d token))

/-! ## Whole actions -/

/-- Give the assignments of an add action the index of the new header. -/
def fixHeaderIdx (posIdx : Nat) (newheader : ConfHeader) (a : ConfAssignment) : ConfAssignment :=
  { a with lhs := { a.lhs with
    field := ⟨{ a.lhs.field.field with headerIdx := posIdx }, newheader.tag⟩ } }

/-- The assignment of the octets a new header starts with, if its protocol has
some. -/
def defaultAssignment (newheader : ConfHeader) (posIdx : Nat) : List ConfAssignment :=
  let value := (protocolFromId newheader.desc.id).defaultValue
  let field : HeaderField := ⟨posIdx, 0, value.length * 8⟩
  if value.isEmpty = true then []
  else [{ text := "add sets default value"
          lhs :=
            { valueType := .number
              value := initValue 0 (value.length * 8)
              field := ⟨field, newheader.tag⟩
              headerName := newheader.desc.name
              fieldName := "default values" }
          rhs := .const .number ⟨value, 0, value.length * 8⟩
          write := .bytes
          lhsProtoid := .payload }]

/-- The next-header field of a new header. It is the type of the header behind
it or, for the last one, what the header in front of it announced. -/
def nexthdrOfNew (assignments : List ConfAssignment) (newheader : ConfHeader) (posIdx : Nat)
    (prevheader nextheader : Option ConfHeader) :
    Compile (List ConfAssignment) :=
  if (protocolFromId newheader.desc.id).getNexthdr.isNone = true then .ok []
  else if (assignments.any fun i => decide (i.lhs.valueType = .nextHeader)) = true then
    -- the user has set the field
    .ok []
  else
    match nextheader with
    | some next => do
      let i ← orThrow (assignNexthdridFromHeaderType "add" newheader posIdx next)
        (throwMsg s a ("header type " ++ protocolTypeFromId newheader.desc.id ++
          " cannot have type " ++ protocolTypeFromId next.desc.id ++ " as next header"))
      return [i]
    | none => do
      let prev ← orThrow prevheader
        (throwMsg s a "need to set nexthdr but no information from next or previous header")
      let i ← orThrow (assignNexthdridCopyFromSrcheader "add" newheader posIdx prev (posIdx - 1))
        (throwMsg s a ("can't copy nexthdr type from previous header type " ++
          protocolTypeFromId prev.desc.id))
      return [i]

def nexthdrOfPrev (newheader : ConfHeader) (posIdx : Nat) (prevheader : Option ConfHeader) :
    Compile (List ConfAssignment):=
  match prevheader with
  | none => .ok []
  | some prev =>
    if (protocolFromId prev.desc.id).getNexthdr.isNone = true then .ok []
    else do
      let i ← orThrow (assignNexthdridFromHeaderType "add" prev (posIdx - 1) newheader)
        (throwMsg s a ("header type " ++ protocolTypeFromId prev.desc.id ++
          " cannot have type " ++ protocolTypeFromId newheader.desc.id ++ " as next header"))
      return [i]

/-- Writing the sequence number into a new header that has room for one. -/
def writeseqForNew (newheader : ConfHeader) (posIdx : Nat) : Compile (List ConfAction) :=
  match protocolGetFieldByType newheader.desc.id .tsnSeq with
  | none => .ok []
  | some f => do
    require (s.seqSet = true) (throwMsg s a ("can't add " ++
      protocolTypeFromId newheader.desc.id ++ " header with undefined sequence number"))
    return [⟨"seq for " ++ a.text, true,
      .metadata .writeseq (some (newHeaderfield posIdx newheader f))⟩]

def writetsForNew (newheader : ConfHeader) (posIdx : Nat) : List ConfAction :=
  match protocolGetFieldByType newheader.desc.id .tsnTstamp with
  | none => []
  | some f => [⟨"tstamp for " ++ a.text, true,
      .metadata .writetstamp (some (newHeaderfield posIdx newheader f))⟩]

/-- Insert a header. Behind the action come the ones that fill in the header,
the last of them an edit with the assignments of the user. -/
def processAdd (d : AddAction) : Compile StageState := do
  let newname ← orThrow d.newname (throwMsg s a "no new header name")
  let pos ← orThrow d.pos (throwMsg s a "no existing header name")
  require (d.beforeafter ≠ .unknown) (throwMsg s a "no header position specified")
  let newheader : ConfHeader := ⟨s.fresh, s.fresh, ⟨newname, d.id, []⟩⟩
  let posIdx := if d.beforeafter = .after then headerIndex s.headers pos + 1
    else headerIndex s.headers pos
  -- the neighbours of the new header
  let prevheader := if posIdx = 0 then none else s.headers[posIdx - 1]?
  let nextheader := s.headers[posIdx]?
  -- right-hand sides keep the index they were given in the list without it
  let assignments := d.assignments.map (fixHeaderIdx posIdx newheader)
  let writeseq ← writeseqForNew s a newheader posIdx
  let writets := writetsForNew a newheader posIdx
  let ofNew ← nexthdrOfNew s a assignments newheader posIdx prevheader nextheader
  let ofPrev ← nexthdrOfPrev s a newheader posIdx prevheader
  let edits := assignments ++ ofPrev ++ ofNew ++ defaultAssignment newheader posIdx
  let edit : List ConfAction :=
    if edits.isEmpty = true then []
    else [⟨"assignments for " ++ a.text, true, .edit edits.reverse (some posIdx)⟩]
  let add := { d with posIdx := posIdx, assignments := [], newTag := newheader.tag }
  return { s with
    actions := edit ++ writets ++ writeseq ++ { a with body := .add add } :: rest
    headers := s.headers.insertIdx posIdx newheader
    fresh := s.fresh + 1
    added := ⟨s.headers, pos, d.beforeafter, d.assignments.map ConfAssignment.text⟩ :: s.added }

def nexthdrOfDel (delh : ConfHeader) (idx : Nat) : Compile (List ConfAssignment) :=
  match if idx = 0 then none else s.headers[idx - 1]? with
  | none => .ok []
  | some prev =>
    if (protocolFromId prev.desc.id).getNexthdr.isNone = true then .ok []
    else
      match s.headers[idx + 1]? with
      | some next => do
        let i ← orThrow (assignNexthdridFromHeaderType "del" prev (idx - 1) next)
          (throwMsg s a ("header type " ++ protocolTypeFromId prev.desc.id ++
            " cannot have type " ++ protocolTypeFromId next.desc.id ++ " as next header"))
        return [i]
      | none => do
        let i ← orThrow (assignNexthdridCopyFromSrcheader "del" prev (idx - 1) delh idx)
          (throwMsg s a "can't copy nexthdr type from deleted to previous header")
        return [i]

def filterForDel (delh : ConfHeader) (idx : Nat) : List ConfAction :=
  match protocolGetFieldByType delh.desc.id .tsnSeq with
  | none => []
  | some f =>
    [⟨"filter before " ++ delh.desc.name, true, .filteroam (newHeaderfield idx delh f)⟩]

/-- Delete a header. The actions that go with it are in front of it. -/
def processDel (d : DelAction) : Compile StageState := do
  let delh ← orThrow d.hdr (throwMsg s a "no header to delete")
  let idx := headerIndex s.headers delh
  let edits ← nexthdrOfDel s a delh idx
  let dedit : List ConfAction :=
    if edits.isEmpty = true then []
    else [⟨"set nexthdr for " ++ a.text, true, .edit edits none⟩]
  return { s with
    actions := { a with body := .del { d with idx := idx } } ::
      (dedit ++ filterForDel delh idx ++ rest)
    headers := s.headers.eraseIdx idx
    needsTtlcheck := if s.needsTtlcheck = some delh.addr then none else s.needsTtlcheck
    mustWrite := s.mustWrite.filter fun mw => decide (mw.header.addr ≠ delh.addr) }

def processDelay (d : DelayAction) : Compile StageState := do
  require (0 < d.delayValue) (throwMsg s a "delay parameter should be positive")
  require (d.delayValue < 2000000) (throwMsg s a "delay parameter should not more than 2 seconds.")
  if d.offload = true then return { s with hadDelayOffload := true }
  else
    require (s.hadDelayOffload = false)
      (throwMsg s a "after delay offload set, any delay without offload is unacceptable")
    return s

/-- Compile the line a jump, the newest action, names, in its place. If this fails, the source
does not hand the list `must_write` back. Who owns its entries is not modelled. -/
def processJump (pipename : Option String) : Compile StageState := do
  let name ← orThrow pipename (throwMsg s a "no action pipeline to jump to")
  let pipestring ← orThrow (env.streamsSec name)
    (throwMsg s a ("action pipeline '" ++ name ++ "' not found"))
  let compile ← orThrow sub (throwMsg s a "jump depth exceeded")
  -- unlike a branch, the line goes on with the same headers
  let jstst ← compile { s with
    stream := name
    actions := []
    parents := s.actions :: s.parents
    added := [] } pipestring
  require (jstst.actions.isEmpty = false)
    (throwMsg s a ("no actions in pipeline '" ++ name ++ "'"))
  return { s with
    actions := jstst.actions ++ rest
    headers := jstst.headers
    mustWrite := jstst.mustWrite
    hadFinal := true
    fresh := jstst.fresh
    added := jstst.added ++ s.added }

/-- The points around an eliminate action, if its object asks for them. -/
def pointsForElim (text pipename : String) (recov : PipelineObject) : Compile StageState :=
  if recov.autoMipLevel ≥ 0 then autoMipElim s text pipename recov else .ok s

/-- An eliminate action goes on with the line of its pipeline. -/
def processElim (d : ElimAction) : Compile StageState := do
  let recov ← orThrow d.recov (throwMsg s a "eliminate needs a sequence recovery object")
  let pipename ← orThrow d.pipename
    (throwMsg s a "eliminate needs an action pipeline (since version 6.3)")
  require (s.seqSet = true) (throwMsg s a "can't eliminate without a sequence number")
  let s ← pointsForElim
    (s.setBody a rest (.elim { d with protostack := checkHeaderStackForOam s.headers })) a.text
    pipename recov
  let jump : ConfAction :=
    ⟨"auto-generated jump for " ++ a.text, true, .jump (some pipename)⟩
  processJump env sub { s with actions := jump :: s.actions } jump s.actions (some pipename)

def processMetadata (op : MetaOp) (field : Option FieldRef) : Compile StageState := do
  require (field.isSome = true) (throwMsg s a "no header specified")
  match op with
  | .readseq => return { s with seqSet := true }
  | .writeseq =>
    require (s.seqSet = true) (throwMsg s a "can't write undefined sequence number")
    return s
  | .readtstamp | .writetstamp => return s

def processRepl (d : ReplAction ConfAction) : Compile StageState := do
  require (d.pipelines.isEmpty = false) (throwMsg s a "no pipelines specified")
  return { s.setBody a rest (.repl { d with
      pipelines := d.pipelines.reverse
      protostack := checkHeaderStackForOam s.headers }) with
    mustWrite := []
    hadFinal := true }

/-- A check of the time to live is put in front of the first send. -/
def processSend (iface : Option Interface) : Compile StageState := do
  require (iface.isSome = true) (throwMsg s a "no send interface specified")
  if s.needsTtlcheck.isSome = true then
    let ttlcheck : ConfAction := ⟨"auto-check before send", true, .ttlcheck⟩
    require (s.ttlSet = true)
      (throwMsg s ttlcheck "can't check undefined TTL, need TTLReduce first")
    return { s with actions := a :: ttlcheck :: rest, needsTtlcheck := none }
  else return s

/-- The part of a length that does not depend on the packet. -/
def setlengthBase : ProtocolID → Option Nat
  | .ipv4 => some 20
  | .ipv6 => some 0
  | .udp => some 8
  | _ => none

def processSetlength (d : SetlengthAction) : Compile StageState := do
  let hdr ← orThrow d.hdr (throwMsg s a "setlength needs a header")
  let base ← orThrow (setlengthBase hdr.desc.id)
    (throwMsg s a ("setlength doesn't know how to handle protocol " ++
      protocolTypeFromId hdr.desc.id))
  let idx := headerIndex s.headers hdr
  let behind := (s.headers.drop (idx + 1)).filter fun h => decide (h.desc.id ≠ .payload)
  -- without a payload in the list this is the index behind it
  let payloadIdx := s.headers.findIdx fun h => h.desc.id = .payload
  return s.setBody a rest (.setlength { d with
    field := (protocolGetFieldByName hdr.desc.id "length").map (newHeaderfield idx hdr)
    baselen := base + (behind.map fun h => (protocolFromId h.desc.id).bytelength).sum
    payloadIdx := payloadIdx
    payloadTag := s.headers[payloadIdx]?.map ConfHeader.tag })

def processAction : Compile StageState :=
  match a.body with
  | .undef => .error (throwMsg s a "no action")
  | .add d => processAdd s a rest d
  | .checksum d | .verify d => do
    require (d.field.isSome = true) (throwMsg s a "no header specified for checksumming")
    return s
  | .del d => processDel s a rest d
  | .delay d => processDelay s a d
  | .drop => .ok { s with hadFinal := true }
  | .edit assignments addedAt => do
    require (assignments.isEmpty = false) (throwMsg s a "no assignments in edit")
    return s.setBody a rest (.edit assignments.reverse addedAt)
  | .elim d => processElim env sub s a rest d
  | .filteroam _ => .ok s
  | .jump pipename => processJump env sub s a rest pipename
  | .oam kind d => processMp s a rest kind d
  | .pof pof => do
    require (pof.isSome = true) (throwMsg s a "no POF object specified")
    require (s.seqSet = true) (throwMsg s a "can't have POF with undefined sequence number")
    return s
  | .metadata op field => processMetadata s a op field
  | .repl d => processRepl s a rest d
  | .send iface => processSend s a rest iface
  | .seqgen gen => do
    require (gen.isSome = true) (throwMsg s a "seqgen needs a sequence generator object")
    return { s with seqSet := true }
  | .setlength d => processSetlength s a rest d
  | .ttlcheck => do
    require (s.ttlSet = true) (throwMsg s a "can't check undefined TTL, need TTLReduce first")
    return s
  | .ttlreduce d => do
    require (d.field.isSome = true) (throwMsg s a "ttlreduce needs a header")
    return { s with ttlSet := true }

/-! ## Lines -/

def blankConfaction (stage : List Char) : ConfAction :=
  ⟨String.ofList stage, false, .undef⟩

def processStage (stage : List Char) : Compile StageState :=
  if s.hadFinal = true then
    .error (.rejected ("can't have more actions after " ++
      ((s.actions.head?.map fun a => confactionNameFromType a.body).getD "")))
  else do
    let s ← foreachTokens (processToken env sub)
      { s with actions := blankConfaction stage :: s.actions } stage
    match s.actions with
    | [] => .error .fault
    | a :: rest =>
      match a.body with
      | .undef => .error (.rejected ("no action in '" ++ a.text ++ "'"))
      | _ => processAction env sub s a rest

def compileStages (env : CompileEnv) : Nat → StageState → List Char → Compile StageState
  -- `depth > MAX_DEPTH`
  | 0, s, line => foreachStages (processStage env none) s line
  | n + 1, s, line => foreachStages (processStage env (some (compileStages env n))) s line

/-- Copies of the headers of a stream, tagged by their position from `n` on. -/
def tagHeaders : List HeaderDescriptor → Nat → List ConfHeader
  | [], _ => []
  | d :: headers, n => ⟨n, n, d⟩ :: tagHeaders headers (n + 1)

/-- The state a stream's line starts in. If the first header has a time to
live, it is reduced first, and a check is pending. -/
def initialState (stream : String) (headers : List HeaderDescriptor) (first : HeaderDescriptor) :
    StageState :=
  let confHeaders := tagHeaders headers 0
  let s : StageState :=
    { stream := stream
      actions := []
      headers := confHeaders
      hadDelayOffload := false
      hadFinal := false
      seqSet := false
      ttlSet := false
      needsTtlcheck := none
      mustWrite := []
      parents := []
      fresh := headers.length
      added := [] }
  match headerGetFieldOfType ⟨0, 0, first⟩ 0 .ttl with
  | none => s
  | some field =>
    { s with
      actions := [⟨"automatic TTL reduce on " ++ first.name, true, .ttlreduce ⟨some field, none⟩⟩]
      ttlSet := true
      needsTtlcheck := some 0 }

def compileLine (stream : String) (line : List Char) (headers : List HeaderDescriptor) :
    Compile StageState:=
  match headers with
  | [] => .error .fault
  | first :: _ => compileStages env (maxDepth + 1) (initialState stream headers first) line

def parseActionsLine (stream : String) (line : List Char) (headers : List HeaderDescriptor) :
    Compile (List ConfAction):= do
  let s ← compileLine env stream line headers
  require (s.actions.isEmpty = false)
    (.rejected ("no actions in actions line for stream '" ++ stream ++ "'"))
  return s.actions.reverse

end Dnt
