import Dnt.Core.ConfConstant

/-!
# Packet and Match Lines

The lines of a stream that `conf_packet.c` reads. The packet line lists the headers of the
stream, one word a stage. Each stage of the match line names one of these headers, and
conditions for its fields.

## Main definitions

* `processPacketStage`: A stage of the packet line.
* `readMatch`: A condition, which is a field and a constant with an equals sign between
  them that may have an exclamation mark in front of it.
* `parseMatchLine`: The headers with their conditions.
-/

namespace Dnt

variable (lib : TextLibrary) (stream : String)

/-- A word of the packet line, and the header of its stage if there was one before. -/
def processPacketToken (header : Option HeaderDescriptor) (token : String) :
    Compile (Option HeaderDescriptor) :=
  match header with
  | some h => .error (.rejected ("stream " ++ stream ++ ": header " ++ h.name ++
      " invalid extra parameter '" ++ token ++ "'"))
  | none => do
    let id := protocolIdFromType (headerTypeFromName token)
    -- ids are numbers in the source, and that of the payload is zero
    require (0 ≤ (protocolIds.idxOf id : Int))
      (.rejected ("stream " ++ stream ++ ": unknown protocol '" ++ token ++ "'"))
    return some ⟨token, id, []⟩

/-- A stage of the packet line. The newest header comes first. -/
def processPacketStage (headers : List HeaderDescriptor) (stage : List Char) :
    Compile (List HeaderDescriptor) := do
  let header ← foreachTokens (processPacketToken stream) none stage
  let h ← orThrow header
    (.rejected ("stream " ++ stream ++ ": missing header name in packet line"))
  return h :: headers

def parsePacketLine (line : List Char) : Compile (List HeaderDescriptor) := do
  let headers ← foreachStages (processPacketStage stream) [] line
  require (headers.isEmpty = false) (.rejected ("no headers specified for stream " ++ stream))
  return headers.reverse

/-- `struct StageState` of `conf_packet.c`. The header the stage is about is known by its
index. -/
structure MatchState where
  stream : String
  headers : List HeaderDescriptor
  current : Option Nat
  deriving DecidableEq, Repr

def matchError (h : HeaderDescriptor) (msg : String) : CompileError :=
  .rejected ("stream " ++ stream ++ " match for header " ++ h.name ++ ": " ++ msg)

/-- The field's name, and whether the condition is negated. The name has to have a character
in front of the exclamation mark. -/
def matchKey (key : String) : String × Bool :=
  if 2 ≤ key.length ∧ key.toList.getLast? = some '!' then (String.ofList key.toList.dropLast, true)
  else (key, false)

def readMatch (h : HeaderDescriptor) (idx : Nat) (token : String) : Compile HeaderMatch := do
  let (key, val) ← orThrow (parseAssignment token)
    (matchError stream h ("'" ++ token ++ "' is not a valid header field match"))
  let (key, neg) := matchKey key
  let f ← orThrow (protocolGetFieldByName h.id key) (matchError stream h ("invalid field " ++ key))
  let value ← readConstant lib ⟨[], f.bitoffset, f.bitcount⟩ h.id f.type val
  -- for prefix matching
  let field : HeaderField := ⟨idx, f.bitoffset, value.bitcount⟩
  let comparator ← orThrow (headerGetFieldComparator field value)
    (matchError stream h ("can't find comparator function for the '" ++ key ++ "' value"))
  return ⟨field, value, comparator, neg⟩

/-- A word of a stage: the name of a header first, then conditions. -/
def processMatchToken (s : MatchState) (token : String) : Compile MatchState :=
  match s.current with
  | none => do
    let idx := s.headers.findIdx fun h => h.name = token
    require (idx < s.headers.length) (.rejected ("stream " ++ s.stream ++
      " match refers to non-existing header '" ++ token ++ "'"))
    return { s with current := some idx }
  | some idx => do
    let h ← orThrow s.headers[idx]? .fault
    let m ← readMatch lib s.stream h idx token
    return { s with headers := s.headers.set idx { h with matchList := m :: h.matchList } }

/-- A stage. One without words has no header, and is a crash. -/
def processMatchStage (s : MatchState) (stage : List Char) : Compile MatchState := do
  let s ← foreachTokens (processMatchToken lib) { s with current := none } stage
  let idx ← orThrow s.current .fault
  let h ← orThrow s.headers[idx]? .fault
  require (h.matchList.isEmpty = false) (.rejected ("stream " ++ s.stream ++ " match '" ++
    String.ofList (stage.takeWhile fun c => !isSpace c) ++ "': contains no match"))
  return { s with headers := s.headers.set idx { h with matchList := h.matchList.reverse } }

/-- `parse_match_line`: the headers with their conditions. -/
def parseMatchLine (headers : List HeaderDescriptor) (line : List Char) :
    Compile (List HeaderDescriptor):= do
  let s ← foreachStages (processMatchStage lib) ⟨stream, headers, none⟩ line
  return s.headers

end Dnt
