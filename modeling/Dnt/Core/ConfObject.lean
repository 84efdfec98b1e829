import Dnt.Core.ConfConstant
import Dnt.Core.Pof
import Dnt.Core.RecoveryThread
import Dnt.Core.SeqGen

/-!
# Objects in the Configuration

`conf_object.c`: every line of the objects section describes a sequence generator, a
sequence recovery, a packet ordering function or a replication, with defaults for
what it does not say.

## Main definitions

* `readUnsigned`: `sscanf` with `%i` reads a `long`, and its lower 32 bits are stored. So
  neither a negative number nor one that does not suit the object is an error.
* `ObjectInfo`, `objectInfo`: An object, and reading its line.

## Theorems

* `objectInfo_inRange`: The numbers of a recovery have 32 bits.
-/

namespace Dnt

variable {key val name : String}

/-! ## Numbers -/

def digitValue (c : Char) : Nat :=
  let n := c.toNat
  if 48 ≤ n ∧ n ≤ 57 then n - 48
  else if 65 ≤ n ∧ n ≤ 90 then n - 55
  else if 97 ≤ n ∧ n ≤ 122 then n - 87
  else 36

def scanSign : List Char → Bool × List Char
  | '-' :: rest => (true, rest)
  | '+' :: rest => (false, rest)
  | text => (false, text)

/-- The base of a number, and its digits with the text behind them. The `x` is skipped, and
the zero in front of it is a digit. -/
def scanBase : List Char → Nat × List Char
  | '0' :: 'x' :: rest => (16, '0' :: rest)
  | '0' :: 'X' :: rest => (16, '0' :: rest)
  | '0' :: rest => (8, '0' :: rest)
  | text => (10, text)

def clampLong (n : Int) : Int :=
  max (-2 ^ 63) (min n (2 ^ 63 - 1))

def scanInteger (text : List Char) : Option (Int × List Char) :=
  let (negative, text) := scanSign (text.dropWhile isSpace)
  let (base, text) := scanBase text
  let digits := text.takeWhile fun c => digitValue c < base
  if digits.isEmpty = true then none
  else
    let value : Nat := digits.foldl (fun n c => base * n + digitValue c) 0
    some (clampLong (if negative = true then -value else value),
      text.dropWhile fun c => digitValue c < base)

def scanSigned (val : String) : Option Int :=
  match scanInteger val.toList with
  | some (n, []) => some (signed32 n)
  | _ => none

def scanUnsigned (val : String) : Option Nat :=
  match scanInteger val.toList with
  | some (n, []) => some (unsigned32 n).toNat
  | _ => none

/-! ## Parameters -/

structure GenParameters where
  useResetFlag : Bool
  useInitFlag : Bool
  initSeq : Nat
  deriving DecidableEq, Repr

structure RecParameters where
  useResetFlag : Bool
  useInitFlag : Bool
  historyLength : Nat
  resetMsec : Nat
  diag : RecoveryDiagnosticConf
  algo : SequenceRecoveryAlgorithm
  deriving DecidableEq, Repr

structure PofParameters where
  maxDelayMs : Nat
  takeAnyTimeMs : Nat
  bufferSize : Nat
  deriving DecidableEq, Repr

inductive ObjectParameters where
  | seqgen (gen : GenParameters)
  | seqrec (rcvy : RecParameters)
  | pof (pof : PofParameters)
  | repl
  deriving DecidableEq, Repr

/-- An object while its line is read. The type is not known in front of the first word. -/
structure ObjectInfo where
  name : String
  autoMipLevel : Int
  parameters : Option ObjectParameters
  deriving DecidableEq, Repr

/-- The defaults of a type. What the source does not mention is zeroed memory. -/
def setDefaultParameters : PipelineObjectType → ObjectParameters
  | .seqgen => .seqgen ⟨false, false, 0x8000⟩
  | .seqrec => .seqrec ⟨false, false, 2, 2000, ⟨2, 0, 0, 0, 0⟩, .rcvyVector⟩
  | .pof => .pof ⟨20, 2000, 2⟩
  | .repl => .repl

def objectError (name msg : String) : String :=
  "object " ++ name ++ " error: " ++ msg

def readUnsigned (name what val : String) : Except String Nat :=
  match scanUnsigned val with
  | some n => .ok n
  | none => .error (objectError name ("invalid " ++ what ++ " '" ++ val ++ "'"))

def readFlag (name what val : String) : Except String Bool :=
  match readBoolean val with
  | some n => .ok (n ≠ 0)
  | none => .error (objectError name ("invalid " ++ what ++ " flag"))

def genParameter (name key val : String) (gen : GenParameters) : Except String GenParameters :=
  if key = "ResetFlag" then do
    return { gen with useResetFlag := ← readFlag name "reset" val }
  else if key = "InitSeqFlag" then do
    return { gen with useInitFlag := ← readFlag name "init" val }
  else if key = "InitSeqStart" then do
    return { gen with initSeq := ← readUnsigned name "init sequence number" val }
  else
    .error (objectError name ("invalid parameter '" ++ key ++ "' for sequence generator"))

def readAlgorithm (name val : String) : Except String SequenceRecoveryAlgorithm :=
  if val = "Vector" then .ok .rcvyVector
  else if val = "SeamlessVector" then .ok .rcvySeamlessVector
  else if val = "Match" then .ok .rcvyMatch
  else .error (objectError name ("invalid recovery algorithm '" ++ val ++ "'"))

/-- A parameter of the diagnosis. The numbers are read as unsigned ones, and kept in
an `int`. -/
def diagParameter (name key val : String) (diag : RecoveryDiagnosticConf) :
    Option (Except String RecoveryDiagnosticConf) :=
  if key = "frerSeqRcvyLatentErrorPaths" then
    some do
      let path ← readUnsigned name "latent error paths" val
      return { diag with adminLatentErrorPaths := signed32 path }
  else if key = "frerSeqRcvyLatentErrorPeriod" then
    some do
      let msec ← readUnsigned name "latent error period" val
      return { diag with latentErrorPeriod := signed32 msec }
  else if key = "frerSeqRcvyLatentResetPeriod" then
    some do
      let msec ← readUnsigned name "latent error reset period" val
      return { diag with latentResetPeriod := signed32 msec }
  else if key = "frerSeqRcvyLatentErrorDifference" then
    some do
      let pkts ← readUnsigned name "latent error period" val
      return { diag with latentErrorDifference := signed32 pkts }
  else if key = "frerSeqRcvyOutageThreshold" then
    some do
      let pkts ← readUnsigned name "outage threshold" val
      return { diag with outageThreshold := signed32 pkts }
  else none

def recParameter (name key val : String) (rcvy : RecParameters) : Except String RecParameters :=
  if key = "ResetFlag" then do
    return { rcvy with useResetFlag := ← readFlag name "reset" val }
  else if key = "InitSeqFlag" then do
    return { rcvy with useInitFlag := ← readFlag name "init" val }
  else if key = "frerSeqRcvyHistoryLength" then do
    return { rcvy with historyLength := ← readUnsigned name "history length" val }
  else if key = "frerSeqRcvyResetMSec" then do
    return { rcvy with resetMsec := ← readUnsigned name "reset msec" val }
  else if key = "frerSeqRcvyAlgorithm" then do
    return { rcvy with algo := ← readAlgorithm name val }
  else
    match diagParameter name key val rcvy.diag with
    | some result => do
      return { rcvy with diag := ← result }
    | none =>
      .error (objectError name ("invalid parameter '" ++ key ++ "' for sequence recovery"))

def pofParameter (name key val : String) (pof : PofParameters) : Except String PofParameters :=
  if key = "TakeAnyTime" then do
    return { pof with takeAnyTimeMs := ← readUnsigned name "take any time" val }
  else if key = "MaxDelay" then do
    return { pof with maxDelayMs := ← readUnsigned name "max delay time" val }
  else if key = "BufferSize" then do
    return { pof with bufferSize := ← readUnsigned name "max delay time" val }
  else
    .error (objectError name
      ("invalid parameter '" ++ key ++ "' for packet ordering function"))

def objectParameter (name key val : String) :
    ObjectParameters → Except String ObjectParameters
  | .seqgen gen => .seqgen <$> genParameter name key val gen
  | .seqrec rcvy => .seqrec <$> recParameter name key val rcvy
  | .pof pof => .pof <$> pofParameter name key val pof
  | .repl => .error (objectError name ("invalid parameter '" ++ key ++ "' for replication"))

/-- The level of the maintenance points that objects of any type can have. -/
def autoMipParameter (name val : String) : Except String Int :=
  match scanSigned val with
  | none => .error (objectError name ("invalid automatic MIP level: '" ++ val ++ "'"))
  | some level =>
    if level > 7 ∨ level < 0 then
      .error (objectError name
        ("'AutoMIP' value '" ++ val ++ "' invalid (valid range is 0-7)"))
    else .ok level

def objectTypeFromName (name str : String) : Except String PipelineObjectType :=
  if str = "SeqGen" then .ok .seqgen
  else if str = "SeqRcvy" then .ok .seqrec
  else if str = "Pof" then .ok .pof
  else if str = "Replicate" then .ok .repl
  else .error (objectError name ("invalid type '" ++ str ++ "'"))

def tokenCb (info : ObjectInfo) (str : String) : Except String ObjectInfo :=
  match info.parameters with
  | none => do
    let type ← objectTypeFromName info.name str
    return { info with autoMipLevel := -1, parameters := some (setDefaultParameters type) }
  | some parameters =>
    match parseAssignment str with
    | none =>
      .error (objectError info.name ("object parameter '" ++ str ++ "' has invalid format"))
    | some (key, val) =>
      if key = "AutoMIP" then do
        return { info with autoMipLevel := ← autoMipParameter info.name val }
      else do
        return { info with parameters := some (← objectParameter info.name key val parameters) }

def objectInfo (name : String) (desc : List Char) : Except String ObjectInfo :=
  foreachTokens tokenCb ⟨name, 0, none⟩ desc

/-! ## Objects -/

def RecParameters.newRecovery (rcvy : RecParameters) (name : String) : MonitoredRecovery :=
  newMonitoredRecovery name rcvy.algo rcvy.useResetFlag rcvy.useInitFlag rcvy.historyLength
    rcvy.resetMsec rcvy.diag

/-- An object of any type. The buffer of a packet ordering function holds iterators. -/
inductive ObjectState (ι : Type*) where
  | seqgen (gen : SequenceGenerator)
  | seqrec (rcvy : MonitoredRecovery)
  | pof (pof : Pof ι)
  | repl

/-- The object with some parameters. Times are in nanoseconds. -/
def ObjectParameters.newObject {ι : Type*} (parameters : ObjectParameters) (name : String) :
    PipelineObjectType × ObjectState ι :=
  match parameters with
  | .seqgen conf => (.seqgen, .seqgen (newSeqGen conf.useResetFlag conf.useInitFlag conf.initSeq))
  | .seqrec conf => (.seqrec, .seqrec (conf.newRecovery name))
  | .pof conf =>
    (.pof,
      .pof (newPof (conf.maxDelayMs * 1000000) (conf.takeAnyTimeMs * 1000000) conf.bufferSize))
  | .repl => (.repl, .repl)

/-- A line of the section. The errors are what is logged. -/
def objectCb {ι : Type*} (key : String) (desc : List Char) :
    Except (List String) (PipelineObject × ObjectState ι) :=
  match objectInfo key desc with
  | .error msg => .error [msg, "parsing parameters failed for object '" ++ key ++ "'"]
  | .ok info =>
    match info.parameters with
    | none => .error ["creating object '" ++ key ++ "' failed"]
    | some parameters =>
      let made := parameters.newObject key
      .ok (⟨key, made.1, info.autoMipLevel⟩, made.2)

def parseObjects {ι : Type*} (objects : HashMap (PipelineObject × ObjectState ι)) :
    List (String × List Char) → Except (List String) (HashMap (PipelineObject × ObjectState ι))
  | [] => .ok objects
  | (key, desc) :: rest =>
    match objectCb key desc with
    | .error msgs => .error (msgs ++ ["error in the objects section"])
    | .ok obj => parseObjects (hashmapInsert objects key obj) rest

theorem objectCb_seqrec {ι : Type*} {desc : List Char} {obj : PipelineObject}
    {r : MonitoredRecovery} (h : @objectCb ι key desc = .ok (obj, .seqrec r)) :
    ∃ info rcvy, objectInfo key desc = .ok info ∧ info.parameters = some (.seqrec rcvy) ∧
      r = rcvy.newRecovery key := by
  unfold objectCb at h
  cases hinfo : objectInfo key desc with
  | error msg =>
    rw [hinfo] at h
    cases h
  | ok info =>
    rw [hinfo] at h
    dsimp only at h
    cases hparameters : info.parameters with
    | none =>
      rw [hparameters] at h
      cases h
    | some parameters =>
      rw [hparameters] at h
      cases parameters with
      | seqrec rcvy =>
        cases h
        exact ⟨info, rcvy, rfl, hparameters, rfl⟩
      | seqgen gen | pof pof | repl => cases h

/-! ## What the configuration guarantees -/

/-- The two numbers that a recovery is made with have 32 bits. -/
structure RecParameters.InRange (rcvy : RecParameters) : Prop where
  historyLength : rcvy.historyLength < 2 ^ 32
  resetMsec : rcvy.resetMsec < 2 ^ 32

theorem readUnsigned_lt {what : String} {n : Nat} (h : readUnsigned name what val = .ok n) :
    n < 2 ^ 32 := by
  unfold readUnsigned scanUnsigned at h
  split at h
  · rename_i m hm
    cases h
    split at hm
    · cases hm
      unfold unsigned32
      omega
    · cases hm
  · cases h

theorem recParameter_inRange {rcvy rcvy' : RecParameters} (hrange : rcvy.InRange)
    (h : recParameter name key val rcvy = .ok rcvy') : rcvy'.InRange := by
  -- two of the parameters are numbers in range, and the others keep both
  unfold recParameter at h
  split_ifs at h
  · exact of_bind_ok h fun _ _ => ⟨hrange.historyLength, hrange.resetMsec⟩
  · exact of_bind_ok h fun _ _ => ⟨hrange.historyLength, hrange.resetMsec⟩
  · exact of_bind_ok h fun _ hread => ⟨readUnsigned_lt hread, hrange.resetMsec⟩
  · exact of_bind_ok h fun _ hread => ⟨hrange.historyLength, readUnsigned_lt hread⟩
  · exact of_bind_ok h fun _ _ => ⟨hrange.historyLength, hrange.resetMsec⟩
  · split at h
    · exact of_bind_ok h fun _ _ => ⟨hrange.historyLength, hrange.resetMsec⟩
    · cases h

theorem objectParameter_seqrec {parameters : ObjectParameters} {rcvy' : RecParameters}
    (h : objectParameter name key val parameters = .ok (.seqrec rcvy')) :
    ∃ rcvy, parameters = .seqrec rcvy ∧ recParameter name key val rcvy = .ok rcvy' := by
  cases parameters with
  | seqgen gen =>
    obtain ⟨gen', -, heq⟩ := (map_eq_ok).mp h
    cases heq
  | seqrec rcvy =>
    obtain ⟨rcvy', hset, heq⟩ := (map_eq_ok).mp h
    cases heq
    exact ⟨rcvy, rfl, hset⟩
  | pof pof =>
    obtain ⟨pof', -, heq⟩ := (map_eq_ok).mp h
    cases heq
  | repl => cases h

def ObjectInfo.InRange (info : ObjectInfo) : Prop :=
  ∀ rcvy, info.parameters = some (.seqrec rcvy) → rcvy.InRange

theorem tokenCb_inRange {info info' : ObjectInfo} {str : String} (hrange : info.InRange)
    (h : tokenCb info str = .ok info') : info'.InRange := by
  unfold tokenCb at h
  split at h
  · -- the defaults are in range
    refine of_bind_ok h fun type _ => ?_
    intro rcvy hrcvy
    cases type with
    | seqrec =>
      cases hrcvy
      exact ⟨by decide, by decide⟩
    | seqgen | pof | repl => cases hrcvy
  · rename_i parameters hparameters
    split at h
    · cases h
    · split_ifs at h
      · exact of_bind_ok h fun _ _ => hrange
      · refine of_bind_ok h fun parameters' hset => ?_
        intro rcvy hrcvy
        cases hrcvy
        obtain ⟨rcvy₀, heq, hset⟩ := objectParameter_seqrec hset
        exact recParameter_inRange (hrange rcvy₀ (hparameters.trans (congrArg some heq))) hset

theorem objectInfo_inRange {desc : List Char} {info : ObjectInfo}
    (h : objectInfo name desc = .ok info) : info.InRange := by
  refine foldlM_invariant (fun info str info' hrange hstep => tokenCb_inRange hrange hstep) ?_ h
  intro rcvy hrcvy
  cases hrcvy

end Dnt
