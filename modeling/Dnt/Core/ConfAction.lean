import Dnt.Core.ConfUtils

/-!
# Actions of a Configuration Line

The data of `conf_actions.c`. Every header has a `tag` that is kept when the list is
copied, the tag stands beside an index that is computed for the header, and the add
stages are kept with the list in front of them. Nothing is decided by these additions.
Decisions by pointer comparison use `addr`.

## Main definitions

* `ConfAction`, `ConfAssignment`: Actions and their assignments.
* `ConfHeader`: A header of the list by which names become indices.
* `CompileEnv`, `StageState`: What a line can refer to, and the state it is compiled in.
-/

namespace Dnt

def maxDepth : Nat := 10

inductive PipelineObjectType where
  | seqgen
  | seqrec
  | pof
  | repl
  deriving DecidableEq, Repr

structure PipelineObject where
  name : String
  type : PipelineObjectType
  autoMipLevel : Int
  deriving DecidableEq, Repr

/-- An interface. Its property reader, if it has one, answers whether a
property can be read into a field of some type at some place. -/
structure Interface where
  name : String
  getPropertyReader : Option (String → ProtocolFieldType → Value → Bool)

/-- A header descriptor on the heap. -/
structure ConfHeader where
  addr : Nat
  tag : Nat
  desc : HeaderDescriptor
  deriving DecidableEq

/-- A field of a packet, and the tag of the header it is meant to be in. -/
structure FieldRef where
  field : HeaderField
  denotes : Nat
  deriving DecidableEq

/-- The left-hand side of an assignment. It is always a header field. -/
structure ConfLhs where
  valueType : ProtocolFieldType
  value : Value
  field : FieldRef
  headerName : String
  fieldName : String

inductive ConfRhs where
  | field (valueType : ProtocolFieldType) (value : Value) (ref : FieldRef)
  | const (valueType : ProtocolFieldType) (value : Value)
  | iface (valueType : ProtocolFieldType) (value : Value) (iface : Interface) (property : String)

structure ConfAssignment where
  text : String
  lhs : ConfLhs
  rhs : ConfRhs
  write : FieldWriter
  lhsProtoid : ProtocolID

inductive BeforeAfter where
  | unknown
  | before
  | after
  deriving DecidableEq, Repr

/-- Inserting a header. `newTag` is the tag it gets. -/
structure AddAction where
  newname : Option String
  id : ProtocolID
  pos : Option ConfHeader
  beforeafter : BeforeAfter
  posIdx : Nat
  len : Nat
  assignments : List ConfAssignment
  wasAdd : Bool
  newTag : Nat

/-- Computing or verifying a checksum. `ipTag` is the tag of the header that
`ipIdx` is meant to be. -/
structure ChecksumAction where
  field : Option FieldRef
  hdrProto : ProtocolID
  ipIdx : Nat
  ipVersion : ProtocolID
  ipTag : Nat

structure DelAction where
  hdr : Option ConfHeader
  idx : Nat

/-- The delay is in microseconds. -/
structure DelayAction where
  delayValue : Int
  offload : Bool

structure ElimAction where
  recov : Option PipelineObject
  pipename : Option String
  protostack : Option (List ProtocolID)

/-- `enum OAM_MP_Addr_Source`, as far as the compiler decides it when it gets to
the maintenance point. -/
inductive AddressSource where
  | unknown
  | fromEdit
  | fromMatch
  deriving DecidableEq, Repr

structure MpAddress where
  header : String
  field : String
  val : Option Value
  source : AddressSource

inductive MpKind where
  | mepstart
  | mepstop
  | mip
  deriving DecidableEq, Repr

/-- A level of -1 is a level not given yet. -/
structure OamAction where
  name : Option String
  stream : Option String
  level : Int
  obj : Option PipelineObject
  protostack : Option (List ProtocolID)
  address : List MpAddress
  autoGenerated : Bool

/-- The actions that move sequence numbers and time stamps between the packet
and its metadata. -/
inductive MetaOp where
  | readseq
  | readtstamp
  | writeseq
  | writetstamp
  deriving DecidableEq, Repr

/-- Setting a length field. `payloadTag` is the tag of the header that
`payloadIdx` is meant to be, none for the payload behind all headers of the
list. -/
structure SetlengthAction where
  hdr : Option ConfHeader
  field : Option FieldRef
  baselen : Nat
  payloadIdx : Nat
  payloadTag : Option Nat

structure TtlAction where
  field : Option FieldRef
  csum : Option FieldRef

structure ReplicateBranch (α : Type) where
  name : String
  actions : List α
  masked : Bool

structure ReplAction (α : Type) where
  pipelines : List (ReplicateBranch α)
  replobj : Option PipelineObject
  protostack : Option (List ProtocolID)

/-- The type of an action and the data of that type. An edit that was made for
an add action has the position of the added header in `addedAt`. -/
inductive ActionBody (α : Type) where
  | undef
  | add (d : AddAction)
  | checksum (d : ChecksumAction)
  | del (d : DelAction)
  | delay (d : DelayAction)
  | drop
  | edit (assignments : List ConfAssignment) (addedAt : Option Nat)
  | elim (d : ElimAction)
  | filteroam (field : FieldRef)
  | jump (pipename : Option String)
  | oam (kind : MpKind) (d : OamAction)
  | pof (pof : Option PipelineObject)
  | metadata (op : MetaOp) (field : Option FieldRef)
  | repl (d : ReplAction α)
  | send (iface : Option Interface)
  | seqgen (gen : Option PipelineObject)
  | setlength (d : SetlengthAction)
  | ttlcheck
  | ttlreduce (d : TtlAction)
  | verify (d : ChecksumAction)

/-- An action. Those the compiler adds by itself are `auto`. -/
structure ConfAction where
  text : String
  auto : Bool
  body : ActionBody ConfAction

/-- A field that has to be written before the packet is sent. -/
structure MustWriteField where
  header : ConfHeader
  field : Option ProtocolField

/-- An add stage: the headers in front of it, the header that it adds before or
after, and its assignments as they are written. -/
structure AddStage where
  headers : List ConfHeader
  pos : ConfHeader
  beforeafter : BeforeAfter
  assigns : List String

/-- The state in which a line is compiled. `actions` has the newest action
first. `parents` are the action lists of the lines that jump or replicate to
this one, `fresh` is an address and tag not used yet, and `added` are the add
stages so far. -/
structure StageState where
  stream : String
  actions : List ConfAction
  headers : List ConfHeader
  hadDelayOffload : Bool
  hadFinal : Bool
  seqSet : Bool
  ttlSet : Bool
  needsTtlcheck : Option Nat
  mustWrite : List MustWriteField
  parents : List (List ConfAction)
  fresh : Nat
  added : List AddStage

/-- What a line can refer to, and how numbers and constants in it are read.
Interfaces and objects are looked up in the configuration first, then in the
state of the running program. -/
structure CompileEnv where
  iface : String → Option Interface
  object : String → Option PipelineObject
  streamsSec : String → Option (List Char)
  readConstant : Value → ProtocolID → ProtocolFieldType → String → Option Value
  scanDelay : String → Option Int
  scanLevel : String → Option Int

inductive CompileError where
  /-- The line is not accepted, and this is logged first. -/
  | rejected (msg : String)
  /-- A pointer is used that is null or freed. -/
  | fault
  deriving DecidableEq, Repr

abbrev Compile (α : Type) : Type := Except CompileError α

def require (c : Prop) [Decidable c] (e : CompileError) : Compile Unit :=
  if c then .ok () else .error e

def orThrow {α : Type} (o : Option α) (e : CompileError) : Compile α :=
  match o with
  | some a => .ok a
  | none => .error e

/-- The message of `THROW` in `process_token` and `process_action`. -/
def throwMsg (s : StageState) (a : ConfAction) (msg : String) : CompileError :=
  .rejected ("stream '" ++ s.stream ++ "' action '" ++ a.text ++ "': " ++ msg)

/-- `header_list_find_by_name`: the header found, and those behind it. -/
def headerListFindByName : List ConfHeader → String → Option (ConfHeader × List ConfHeader)
  | [], _ => none
  | h :: next, name => if h.desc.name = name then some (h, next) else headerListFindByName next name

/-- The header with a name, which has to be the only one. -/
def findHeader (headers : List ConfHeader) (name : String) (missing ambiguous : CompileError) :
    Compile ConfHeader :=
  match headerListFindByName headers name with
  | none => .error missing
  | some (h, next) =>
    if (headerListFindByName next name).isSome = true then .error ambiguous else .ok h

def headerIndex (headers : List ConfHeader) (pos : ConfHeader) : Nat :=
  headers.findIdx fun h => h.addr = pos.addr

/-- A field of the header `h`, which is the one at `headerIdx`. -/
def newHeaderfield (headerIdx : Nat) (h : ConfHeader) (pfield : ProtocolField) : FieldRef :=
  ⟨⟨headerIdx, pfield.bitoffset, pfield.bitcount⟩, h.tag⟩

def headerGetFieldOfType (hdr : ConfHeader) (hdrIdx : Nat) (type : ProtocolFieldType) :
    Option FieldRef :=
  (protocolGetFieldByType hdr.desc.id type).map (newHeaderfield hdrIdx hdr)

variable {e : CompileError} {h : ConfHeader} {headers : List ConfHeader} {name : String}

theorem orThrow_eq_ok {α : Type} {o : Option α} {a : α} : orThrow o e = .ok a ↔ o = some a := by
  cases o with
  | none => simp only [orThrow, reduceCtorEq]
  | some b => simp [orThrow]

theorem require_eq_ok {c : Prop} [Decidable c] {u : Unit} : require c e = .ok u ↔ c := by
  simp [require]

theorem headerListFindByName_mem {next : List ConfHeader}
    (hfind : headerListFindByName headers name = some (h, next)) : h ∈ headers := by
  induction headers with
  | nil => cases hfind
  | cons d ds ih =>
    unfold headerListFindByName at hfind
    grind

theorem findHeader_mem {e1 e2 : CompileError} (hfind : findHeader headers name e1 e2 = .ok h) :
    h ∈ headers := by
  unfold findHeader at hfind
  cases hlist : headerListFindByName headers name with
  | none =>
    rw [hlist] at hfind
    cases hfind
  | some found =>
    rw [hlist] at hfind
    rcases found with ⟨d, next⟩
    simp only at hfind
    split at hfind
    · cases hfind
    · cases hfind
      exact headerListFindByName_mem hlist

end Dnt
