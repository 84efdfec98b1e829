import Dnt.Core.ConfAssign

/-!
# Maintenance Points in a Configuration Line

The part of `conf_actions.c` about maintenance points. They need a header stack that
maintenance packets can travel in, and addresses: from the last assignment that
wrote them, from a match, or written further on in the line.

## Main definitions

* `checkHeaderStackForOam`: The search for such a stack.
* `findAddressingForMp`: The search for addresses.
* `pushAutoMip`: A generated point. When it cannot be made, the clean-up goes through the
  second point of the pair, which is not there.
-/

namespace Dnt

/-- `oam_possible_protostacks`, in the order they are tried. -/
def oamPossibleProtostacks : List (List ProtocolID) :=
  [[.ipv6], [.mpls, .dcw], [.eth, .cvlan, .rtag], [.eth, .svlan, .rtag], [.eth, .cvlan],
   [.eth, .svlan]]

def checkHeaderStackForOam (headers : List ConfHeader) : Option (List ProtocolID) :=
  oamPossibleProtostacks.find? fun stack => stack.isPrefixOf (headers.map fun h => h.desc.id)

def headerFieldThatsAddressForOam : ProtocolID → Option String
  | .ipv6 => some "loc"
  | .mpls => some "label"
  | .eth => some "dmac"
  | .cvlan | .svlan => some "vid"
  | _ => none

/-- The constant an assignment writes to the address field of its header. -/
def addressForOamInAssignment (ass : ConfAssignment) : Option Value :=
  match ass.rhs with
  | .const _ value =>
    let isAddress : Bool :=
      match ass.lhsProtoid with
      | .ipv6 => ass.lhs.fieldName = "loc"
      | .mpls => ass.lhs.fieldName = "label"
      | .eth => ass.lhs.fieldName = "dmac"
      | .cvlan | .svlan => ass.lhs.fieldName = "vid" || ass.lhs.fieldName = "vlan"
      | _ => false
    if isAddress = true then some value else none
  | _ => none

def matchesField (m : HeaderMatch) (id : ProtocolID) (name : String) : Bool :=
  (protocolGetFieldByName id name).any fun f =>
    decide (m.field.bitoffset = f.bitoffset) && decide (m.field.bitcount = f.bitcount)

/-- The value some match wants in the address field of a header. -/
def addressForOamInMatches (h : ConfHeader) : Option Value :=
  let isAddress (m : HeaderMatch) : Bool :=
    match h.desc.id with
    | .ipv6 => matchesField m .ipv6 "loc"
    | .mpls => matchesField m .mpls "label"
    | .eth =>
      -- a prefix is enough here
      (protocolGetFieldByName .eth "dmac").any fun f =>
        decide (m.field.bitoffset = f.bitoffset) && decide (m.field.bitcount ≤ f.bitcount)
    | .cvlan | .svlan => matchesField m .cvlan "vid" || matchesField m .cvlan "vlan"
    | _ => false
  (h.desc.matchList.find? isAddress).map HeaderMatch.value

def mustWriteForOamInHeader (h : ConfHeader) : MustWriteField :=
  { header := h
    field :=
      match h.desc.id with
      | .ipv6 => protocolGetFieldByName .ipv6 "loc"
      | .mpls => protocolGetFieldByName .mpls "label"
      | .eth => protocolGetFieldByName .eth "dmac"
      -- writing `vlan` writes it as well
      | .cvlan | .svlan => protocolGetFieldByName .cvlan "vid"
      | _ => none }

/-- What happened last to the header with a name: it was added, or its address
was written. -/
inductive LastTouch where
  | added
  | written (val : Value)
  | untouched

/-- Search the actions so far, the newest one first. -/
def lastTouch (name : String) : List ConfAction → LastTouch
  | [] => .untouched
  | a :: actions =>
    match a.body with
    | .add d => if d.newname = some name then .added else lastTouch name actions
    | .edit assignments _ =>
      match assignments.findSome? fun ass =>
          if ass.lhs.headerName = name then addressForOamInAssignment ass else none with
      | some val => .written val
      | none => lastTouch name actions
    | _ => lastTouch name actions

/-- The address of a point in one header, and what has to be written further
on for it. -/
def addressingForHeader (actions : List ConfAction) (h : ConfHeader) (field : String) :
    MpAddress × List MustWriteField :=
  match lastTouch h.desc.name actions with
  | .added => (⟨h.desc.name, field, none, .unknown⟩, [mustWriteForOamInHeader h])
  | .written val => (⟨h.desc.name, field, some val, .fromEdit⟩, [])
  | .untouched =>
    match addressForOamInMatches h with
    | some val => (⟨h.desc.name, field, some val, .fromMatch⟩, [])
    | none => (⟨h.desc.name, field, none, .unknown⟩, [mustWriteForOamInHeader h])

/-- The addresses of a point and the fields to be written, when those of some
headers have been found. The search goes on in the lines that led here. -/
def findAddressingForMp (actions : List ConfAction) :
    List ConfHeader → List MpAddress × List MustWriteField → List MpAddress × List MustWriteField
  | [], found => found
  | h :: headers, (address, mustWrite) =>
    match headerFieldThatsAddressForOam h.desc.id with
    | none => findAddressingForMp actions headers (address, mustWrite)
    | some field =>
      let (addr, mw) := addressingForHeader actions h field
      findAddressingForMp actions headers (addr :: address, mw ++ mustWrite)

/-- Check a maintenance point, the newest action, and find its addresses. -/
def processMp (s : StageState) (a : ConfAction) (rest : List ConfAction) (kind : MpKind)
    (d : OamAction) : Compile StageState := do
  let name ← orThrow d.name (throwMsg s a "unnamed OAM action (name is mandatory)")
  require (d.level ≠ -1) (throwMsg s a ("no level specified for '" ++ name ++ "' OAM action"))
  let stack ← orThrow (checkHeaderStackForOam s.headers)
    (throwMsg s a ("header stack is not suitable for OAM point " ++ name))
  if kind = .mepstop then
    return { s with actions := { a with body := .oam kind { d with protostack := some stack } } ::
      rest }
  else
    let (address, mustWrite) := findAddressingForMp (s.actions ++ s.parents.flatten)
      (s.headers.take stack.length) (d.address, s.mustWrite)
    let d := { d with protostack := some stack, address := address }
    return { s with actions := { a with body := .oam kind d } :: rest, mustWrite := mustWrite }

/-- `oam_automip_name`. The level is printed as an unsigned number. -/
def oamAutomipName (stream : String) (level : Int) (objectName : String) (post : Bool) : String :=
  "o_" ++ stream ++ "_L" ++ toString (level % 4294967296).toNat ++ "_" ++
    (if post = true then "post" else "pre") ++ "-" ++ objectName

def oamIsAutomipName (name : String) (position : Int) : Bool :=
  let text := name.toList
  if text[0]? = some 'o' ∧ text[1]? = some '_' then
    if position > 0 then (strstr "_post-".toList text).isSome
    else if position < 0 then (strstr "_pre-".toList text).isSome
    else false
  else false

def autoMip (text name stream : String) (obj : PipelineObject) : ConfAction × OamAction :=
  let d : OamAction :=
    { name := some name
      stream := some stream
      level := obj.autoMipLevel
      obj := some obj
      protostack := none
      address := []
      autoGenerated := true }
  (⟨text, true, .oam .mip d⟩, d)

/-- Put a generated point on top of the actions. If it is not possible, the
clean-up uses a null pointer. -/
def pushAutoMip (s : StageState) (mip : ConfAction × OamAction) : Compile StageState :=
  match processMp { s with actions := mip.1 :: s.actions } mip.1 s.actions .mip mip.2 with
  | .ok s => .ok s
  | .error _ => .error .fault

def confactionSwapWithNext : List ConfAction → List ConfAction
  | a :: b :: rest => b :: a :: rest
  | actions => actions

/-- A point in front of the newest action, which has the text `text`. -/
def autoMipBefore (s : StageState) (text : String) (obj : PipelineObject) : Compile StageState := do
  let s ← pushAutoMip s (autoMip ("auto-generated MIP before '" ++ text ++ "'")
    (oamAutomipName s.stream obj.autoMipLevel obj.name false) s.stream obj)
  return { s with actions := confactionSwapWithNext s.actions }

/-- Points in front of and behind an eliminate action, the newest one. -/
def autoMipElim (s : StageState) (text pipename : String) (obj : PipelineObject) :
    Compile StageState := do
  let s ← autoMipBefore s text obj
  pushAutoMip s (autoMip ("auto-generated MIP after '" ++ text ++ "'")
    (oamAutomipName pipename obj.autoMipLevel obj.name true) pipename obj)

def autoMipBranch (pstst : StageState) (text : String) (obj : PipelineObject) :
    Compile StageState :=
  pushAutoMip pstst (autoMip ("auto-generated MIP after '" ++ text ++ "'")
    (oamAutomipName pstst.stream obj.autoMipLevel obj.name true) pstst.stream obj)

end Dnt
