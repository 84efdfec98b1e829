import Dnt.Core.ConfAction

/-!
# Assignments to Header Fields

How the compiler reads an assignment, and the assignments it makes up itself to
keep the next-header fields of a packet right, after `conf_actions.c`.

## Main definitions

* `processAssignmentLhs`: The field that an assignment writes.
* `processAssignmentRhs`: What it writes there. A text with a dot in it is a field of a
  header, or else a property of an interface. Everything else is a constant.
* `assignNexthdridFromHeaderType`: A next-header field for the type of a header.
-/

namespace Dnt

def fieldtypeNameFromType : ProtocolFieldType → String
  | .unknown => "Unknown"
  | .number => "Number"
  | .macAddress => "MAC"
  | .ipv4Address => "IPv4"
  | .ipv6Address => "IPv6"
  | .tsnSeq => "TSNSeq"
  | .srv6Seq => "SRv6Seq"
  | .tsnTstamp => "TSNTstamp"
  | .ttl => "TTL"
  | .checksum => "Checksum"
  | .nextHeader => "NextHeader"

/-- `init_value`: no contents yet. -/
def initValue (bitoffset bitcount : Nat) : Value :=
  ⟨[], bitoffset, bitcount⟩

def lhsError (msg : String) : CompileError :=
  .rejected ("assignment lhs: " ++ msg)

def rhsError (msg : String) : CompileError :=
  .rejected ("assignment rhs: " ++ msg)

/-- Writing `f` of a header writes the field that must be written. -/
def coversMustWrite (h : ConfHeader) (f : ProtocolField) (mw : MustWriteField) : Bool :=
  decide (h.addr = mw.header.addr) && mw.field.any fun m =>
    decide (f.bitoffset ≤ m.bitoffset) &&
      decide (f.bitoffset + f.bitcount ≥ m.bitoffset + m.bitcount)

/-- The left-hand side, the protocol of its header, and the fields that still
have to be written. -/
def processAssignmentLhs (s : StageState) (string : String) :
    Compile (ConfLhs × ProtocolID × List MustWriteField) := do
  let (hdr, field) ← orThrow (parseFieldname string)
    (lhsError ("left-hand-side '" ++ string ++ "' of the assignment is invalid"))
  let h ← findHeader s.headers hdr
    (lhsError ("no header named '" ++ hdr ++ "' in the packet"))
    (lhsError ("header name '" ++ hdr ++ "' is ambiguous"))
  let f ← orThrow (protocolGetFieldByName h.desc.id field)
    (lhsError ("header '" ++ hdr ++ "' has no field named '" ++ field ++ "'"))
  let lhs : ConfLhs :=
    { valueType := f.type
      value := initValue f.bitoffset f.bitcount
      field := newHeaderfield (headerIndex s.headers h) h f
      headerName := hdr
      fieldName := field }
  return (lhs, h.desc.id, s.mustWrite.filter fun mw => !coversMustWrite h f mw)

def rhsField (headers : List ConfHeader) (lhs : ConfLhs) (h : ConfHeader) (key val : String) :
    Compile (ConfRhs × FieldWriter) := do
  let f ← orThrow (protocolGetFieldByName h.desc.id val)
    (rhsError ("header " ++ key ++ " has no field " ++ val))
  require (lhs.valueType = f.type)
    (rhsError ("types of left-hand-side " ++ fieldtypeNameFromType lhs.valueType ++
      " and right-hand-side " ++ fieldtypeNameFromType f.type ++ " don't match"))
  let value := initValue f.bitoffset f.bitcount
  let hf := newHeaderfield (headerIndex headers h) h f
  require (headerHasFieldReader lhs.value hf.field = true)
    (rhsError ("cannot read field " ++ key ++ "." ++ val ++ " into the left-hand-side expression"))
  let write ← orThrow (headerGetFieldWriter lhs.field.field value)
    (rhsError ("cannot write field " ++ key ++ "." ++ val ++ " into the left-hand-side expression"))
  return (.field f.type value hf, write)

def rhsIface (lhs : ConfLhs) (iface : Interface) (key val : String) :
    Compile (ConfRhs × FieldWriter) := do
  let reader ← orThrow iface.getPropertyReader
    (rhsError ("interface " ++ iface.name ++ " has no queryable property"))
  require (reader val lhs.valueType lhs.value = true)
    (rhsError ("interface " ++ iface.name ++ " has no property named '" ++ val ++ "'"))
  let value := initValue (lhs.value.bitoffset % 8) lhs.value.bitcount
  let write ← orThrow (headerGetFieldWriter lhs.field.field value)
    (rhsError ("cannot write interface property " ++ key ++ "." ++ val ++
      " into the left-hand-side expression"))
  return (.iface lhs.valueType value iface val, write)

def rhsConst (env : CompileEnv) (lhs : ConfLhs) (lhsProtoid : ProtocolID) (string : String) :
    Compile (ConfRhs × FieldWriter) := do
  let value ← orThrow
    (env.readConstant (initValue lhs.value.bitoffset lhs.value.bitcount) lhsProtoid lhs.valueType
      string)
    (rhsError ("failed to parse '" ++ string ++
      "' as a header field, interface property, or a constant"))
  require (lhs.value.bitcount = value.bitcount) (rhsError "prefix assignment is not supported")
  let write ← orThrow (headerGetFieldWriter lhs.field.field value)
    (rhsError ("cannot write constant '" ++ string ++ "' into the left-hand-side expression"))
  return (.const lhs.valueType value, write)

/-- The right-hand side and the function that writes its value. -/
def processAssignmentRhs (env : CompileEnv) (headers : List ConfHeader) (lhs : ConfLhs)
    (lhsProtoid : ProtocolID) (string : String) : Compile (ConfRhs × FieldWriter) :=
  match parseFieldname string with
  | none => rhsConst env lhs lhsProtoid string
  | some (key, val) =>
    match headerListFindByName headers key with
    | some (h, next) =>
      if (headerListFindByName next key).isSome = true then
        .error (rhsError ("header name '" ++ key ++ "' is ambiguous"))
      else rhsField headers lhs h key val
    | none =>
      match env.iface key with
      | some iface => rhsIface lhs iface key val
      -- IPv4 addresses have dots, too
      | none => rhsConst env lhs lhsProtoid string

/-- Which of the two conversions in the table a protocol uses. -/
inductive NexthdrKind where
  | ethertype
  | ipproto
  deriving DecidableEq, Repr

/-- `get_nexthdr` of a protocol, as a pointer. -/
def nexthdrKind : ProtocolID → Option NexthdrKind
  | .eth | .svlan | .cvlan | .rtag | .ttag => some .ethertype
  | .ipv4 | .ipv6 => some .ipproto
  | _ => none

def hex4 (n : Nat) : String :=
  String.ofList ([12, 8, 4, 0].map fun shift => Nat.digitChar ((n >>> shift) % 16))

/-- Set the next-header field of `dstheader`, which is the one at `dstpos`, to
the type of `typeheader`. -/
def assignNexthdridFromHeaderType (actionName : String) (dstheader : ConfHeader) (dstpos : Nat)
    (typeheader : ConfHeader) : Option ConfAssignment := do
  let getNexthdr ← (protocolFromId dstheader.desc.id).getNexthdr
  let dstf ← protocolGetFieldByType dstheader.desc.id .nextHeader
  let nexthdrnum ← getNexthdr typeheader.desc.id
  let value ← prepareConstantNumber dstf.bitoffset dstf.bitcount nexthdrnum
  let dsthf := newHeaderfield dstpos dstheader dstf
  let write ← headerGetFieldWriter dsthf.field value
  return {
    text := actionName ++ " sets " ++ dstheader.desc.name ++ "." ++ dstf.name ++ "=0x" ++
      hex4 nexthdrnum ++ " (" ++ protocolTypeFromId typeheader.desc.id ++ ")"
    lhs :=
      { valueType := dstf.type
        value := initValue dstf.bitoffset dstf.bitcount
        field := dsthf
        headerName := dstheader.desc.name
        fieldName := dstf.name }
    rhs := .const dstf.type value
    write := write
    lhsProtoid := .payload }

/-- Copy the next-header field of `srcheader` to `dstheader`, if they mean the
same by it. -/
def assignNexthdridCopyFromSrcheader (actionName : String) (dstheader : ConfHeader) (dstpos : Nat)
    (srcheader : ConfHeader) (srcpos : Nat) : Option ConfAssignment := do
  guard (nexthdrKind dstheader.desc.id = nexthdrKind srcheader.desc.id)
  let dstf ← protocolGetFieldByType dstheader.desc.id .nextHeader
  let srcf ← protocolGetFieldByType srcheader.desc.id .nextHeader
  let value := initValue srcf.bitoffset srcf.bitcount
  let srchf := newHeaderfield srcpos srcheader srcf
  guard (headerHasFieldReader (initValue dstf.bitoffset dstf.bitcount) srchf.field = true)
  let dsthf := newHeaderfield dstpos dstheader dstf
  let write ← headerGetFieldWriter dsthf.field value
  return {
    text := actionName ++ " sets " ++ dstheader.desc.name ++ "." ++ dstf.name ++ "=" ++
      srcheader.desc.name ++ "." ++ srcf.name
    lhs :=
      { valueType := dstf.type
        value := initValue dstf.bitoffset dstf.bitcount
        field := dsthf
        headerName := dstheader.desc.name
        fieldName := dstf.name }
    rhs := .field srcf.type value srchf
    write := write
    lhsProtoid := .payload }

end Dnt
