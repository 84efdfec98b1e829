import Dnt.Core.HashMap
import Dnt.Core.SeqRecov

/-!
# Masked Paths

How a sequence recovery keeps track of paths that are known not to deliver. The
maintenance points in front of it tell it when a path is masked. It then expects
fewer copies of each packet, and when no path is left it starts a mask session at
the point behind it, which tells the next recovery.

## Main definitions

* `MaskRecovery`, `MaskPoint`: What the recovery and a point know of paths and sessions.
* `seqRecPathMasked`, `seqRecPathUnmasked`: The two signals.
* `maskStep`: A signal, with the session call it makes.
-/

namespace Dnt

structure MaskState where
  masked : Bool
  deriving DecidableEq, Repr

structure MaskRecovery where
  name : String
  recovery : SequenceRecovery
  adminLatentErrorPaths : Int
  latentErrorPaths : Int
  latentErrorResets : Int
  curBaseDifference : Int
  /-- The inputs, or nothing if none was registered. -/
  preAutoMip : Option (HashMap MaskState)
  postAutoMip : Option String
  deriving DecidableEq, Repr

def newMaskRecovery (name : String) (recovery : SequenceRecovery) (adminLatentErrorPaths : Int) :
    MaskRecovery where
  name := name
  recovery := recovery
  adminLatentErrorPaths := adminLatentErrorPaths
  latentErrorPaths := adminLatentErrorPaths
  latentErrorResets := 0
  curBaseDifference := 0
  preAutoMip := none
  postAutoMip := none

def seqRecRegisterPreAutoMip (r : MaskRecovery) (mipName : String) : MaskRecovery :=
  { r with preAutoMip := some (hashmapInsert (r.preAutoMip.getD []) mipName ⟨false⟩) }

/-- A second output is only logged. -/
def seqRecRegisterPostAutoMip (r : MaskRecovery) (mipName : String) : MaskRecovery :=
  match r.postAutoMip with
  | some _ => r
  | none => { r with postAutoMip := some mipName }

def latentErrorReset (r : MaskRecovery) : MaskRecovery :=
  { r with
    curBaseDifference :=
      r.recovery.passedPackets * (r.latentErrorPaths - 1) - r.recovery.discardedPackets
    latentErrorResets := intSucc r.latentErrorResets
    recovery :=
      { r.recovery with
        loss :=
          { r.recovery.loss with skipLossAfterResetGuard := r.recovery.historyLength - 1 } } }

inductive SessionCall where
  | start (mip : Option String)
  | stop (mip : Option String)
  deriving DecidableEq, Repr

structure MaskOutput where
  result : Bool
  /-- The text of the logged error. -/
  error : Option String
  /-- The event that is notified, with the name of the input. -/
  notified : Option (String × String)
  session : Option SessionCall
  deriving DecidableEq, Repr

def MaskOutput.refused (error : String) : MaskOutput :=
  ⟨false, some error, none, none⟩

def seqRecPathMasked (r : MaskRecovery) (mipName : String) : MaskRecovery × MaskOutput :=
  match r.preAutoMip with
  | none => (r, .refused s!"{r.name} got mask signal, but has no preAutoMIP")
  | some preAutoMip =>
    match hashmapFind preAutoMip mipName with
    | none =>
      (r, .refused s!"{r.name} got mask signal for '{mipName}', but has no such preAutoMIP")
    | some premip =>
      if premip.masked = true then
        (r, .refused s!"{r.name} got mask signal for '{mipName}', but it is already masked")
      else if r.latentErrorPaths ≤ 0 then
        (r, .refused (s!"{r.name} got mask signal for '{mipName}', but latent error paths " ++
          s!"is already {r.latentErrorPaths}"))
      else
        let r := latentErrorReset
          { r with
            preAutoMip := some (hashmapInsert preAutoMip mipName ⟨true⟩)
            latentErrorPaths := r.latentErrorPaths - 1 }
        (r, ⟨true, none, some ("seq_rcvy mask", mipName),
          if r.latentErrorPaths = 0 then some (.start r.postAutoMip) else none⟩)

def seqRecPathUnmasked (r : MaskRecovery) (mipName : String) : MaskRecovery × MaskOutput :=
  match r.preAutoMip with
  | none => (r, .refused s!"{r.name} got unmask signal, but has no preAutoMIP")
  | some preAutoMip =>
    match hashmapFind preAutoMip mipName with
    | none =>
      (r, .refused s!"{r.name} got unmask signal for '{mipName}', but has no such preAutoMIP")
    | some premip =>
      if premip.masked = false then
        (r, .refused s!"{r.name} got unmask signal for '{mipName}', but it is not masked")
      else if r.latentErrorPaths ≥ r.adminLatentErrorPaths then
        (r, .refused (s!"{r.name} got unmask signal for '{mipName}', but latent error paths " ++
          s!"is already {r.latentErrorPaths}"))
      else
        let r := latentErrorReset
          { r with
            preAutoMip := some (hashmapInsert preAutoMip mipName ⟨false⟩)
            latentErrorPaths := r.latentErrorPaths + 1 }
        (r, ⟨true, none, some ("seq_rcvy unmask", mipName),
          if r.latentErrorPaths = 1 then some (.stop r.postAutoMip) else none⟩)

/-- What a mask session needs of a maintenance point: whether it can send, and
whether its sending thread is running. -/
structure MaskPoint where
  canSend : Bool
  maskSend : Bool
  deriving DecidableEq, Repr

def mpInitiateMaskSignalling (mp : MaskPoint) : MaskPoint × Bool :=
  if mp.canSend = false then (mp, false) else ({ mp with maskSend := true }, true)

def mpStopMaskSignalling (mp : MaskPoint) : MaskPoint × Bool :=
  if mp.canSend = false then (mp, false)
  else if mp.maskSend = false then (mp, false)
  else ({ mp with maskSend := false }, true)

variable (mpHash : HashMap MaskPoint)

/-- The maintenance point with a name, if there is one, takes part in a session. -/
def withMaskPoint (mipName : Option String) (f : MaskPoint → MaskPoint × Bool) : HashMap MaskPoint:=
  match mipName with
  | none => mpHash
  | some name =>
    match hashmapFind mpHash name with
    | none => mpHash
    | some mp => hashmapInsert mpHash name (f mp).1

def oamAutomipStartMaskSession (mipName : Option String) : HashMap MaskPoint :=
  withMaskPoint mpHash mipName mpInitiateMaskSignalling

def oamAutomipStopMaskSession (mipName : Option String) : HashMap MaskPoint :=
  withMaskPoint mpHash mipName mpStopMaskSignalling

structure MaskSystem where
  recovery : MaskRecovery
  mpHash : HashMap MaskPoint
  deriving DecidableEq, Repr

inductive MaskSignal where
  | masked (mipName : String)
  | unmasked (mipName : String)
  deriving DecidableEq, Repr

def applySession : Option SessionCall → HashMap MaskPoint
  | some (.start mip) => oamAutomipStartMaskSession mpHash mip
  | some (.stop mip) => oamAutomipStopMaskSession mpHash mip
  | none => mpHash

/-- One signal, with the session call it makes. -/
def maskStep (s : MaskSystem) (signal : MaskSignal) : MaskSystem × MaskOutput :=
  let r :=
    match signal with
    | .masked mipName => seqRecPathMasked s.recovery mipName
    | .unmasked mipName => seqRecPathUnmasked s.recovery mipName
  (⟨r.1, applySession s.mpHash r.2.session⟩, r.2)

end Dnt
