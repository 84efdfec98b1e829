import Mathlib.Logic.Function.Basic

/-!
# Operations on Maintenance Points

What pipelines, requests and commands do to the reference counts of maintenance
points, one whole operation after the other. A lookup by name that is not followed by
giving the reference back keeps it.

## Main definitions

* `MpReferences`: The counts, and the users that have references.
* `MpOperation`, `mpOperation`: An operation with what can fail in it, and its effect.
-/

namespace Dnt

open Function

/-- What becomes of a request. -/
inductive RequestFate where
  /-- Its text is not valid or it is not allowed, and it is deleted. -/
  | invalid
  /-- `initiate_request` fails without a session: the point can't send, or no id is free. -/
  | refused
  /-- It gets a session, maybe that of a request that was timed out, but no thread. -/
  | noThread (expired : Option Nat)
  | started (expired : Option Nat)
  deriving DecidableEq, Repr

inductive RequestCaller where
  /-- The commands `ping`, `rping`, `notif_trigger` and `rlist`, which are alike in this. -/
  | telnet
  /-- `oam_start_background_ping`, for a stream that may have fourteen sessions already. -/
  | background (crowded : Bool)
  /-- `process_rping_request`. -/
  | remote
  deriving DecidableEq, Repr

inductive UnmaskFate where
  | cannotSend
  | notRunning
  | unpackable
  | sent
  deriving DecidableEq, Repr

inductive MpOperation where
  /-- A pipeline with OAM actions for these points is assembled. -/
  | assemble (names : List String)
  /-- Assembling fails, and these actions exist by then. -/
  | assembleFails (created : List String)
  | deletePipeline (i : Nat)
  | request (caller : RequestCaller) (name : String) (fate : RequestFate)
  /-- A session is stopped, by a command or because its connection is closed. -/
  | stop (i : Nat)
  /-- The commands `mp`, and `mask` and `unmask` for one branch, or only to show its state. -/
  | mp (name : String)
  | mask (name : String)
  | unmask (name : String) (fate : UnmaskFate)
  deriving DecidableEq, Repr

structure MpReferences where
  /-- `reference_count` of the points that exist. -/
  points : String → Option Int
  /-- The points of the OAM actions, for each pipeline. -/
  pipelines : List (List String)
  /-- The start points of the requests that have a session. -/
  requests : List String

def mpReferencesStart : MpReferences :=
  ⟨fun _ => none, [], []⟩

/-- A point is created, or referenced once more. -/
def oamNewMaintenancePoint (points : String → Option Int) (name : String) :
    String → Option Int :=
  match points name with
  | none => update points name (some 1)
  | some count => update points name (some (count + 1))

/-- Looking a point up takes a reference. -/
def findMaintenancePoint (points : String → Option Int) (name : String) : String → Option Int :=
  match points name with
  | none => points
  | some count => update points name (some (count + 1))

/-- The last reference deletes the point. -/
def oamUnrefMaintenancePoint (points : String → Option Int) (name : String) :
    String → Option Int :=
  match points name with
  | none => points
  | some count => update points name (if count - 1 = 0 then none else some (count - 1))

def MpReferences.stop (s : MpReferences) (i : Nat) : MpReferences :=
  match s.requests[i]? with
  | none => s
  | some name =>
    { s with points := oamUnrefMaintenancePoint s.points name, requests := s.requests.eraseIdx i }

def MpReferences.alloc (s : MpReferences) (name : String) (expired : Option Nat) :
    MpReferences :=
  let s := match expired with
    | none => s
    | some i => s.stop i
  { s with requests := s.requests ++ [name] }

def MpReferences.unref (s : MpReferences) (name : String) : MpReferences :=
  { s with points := oamUnrefMaintenancePoint s.points name }

/-- The reference to the point goes to the session, is given back, or is lost. -/
def issueRequest (s : MpReferences) (caller : RequestCaller) (name : String) :
    RequestFate → MpReferences
  | .invalid => s.unref name
  | .refused =>
    -- after the error message of a command, the loop goes on with the next one
    if caller = .remote then s.unref name else s
  | .noThread expired =>
    if caller = .background true then s
    else if caller = .remote then (s.alloc name expired).unref name
    else s.alloc name expired
  | .started expired => if caller = .background true then s else s.alloc name expired

def mpOperation (s : MpReferences) : MpOperation → MpReferences × Unit
  | .assemble names =>
    ({ s with
        points := names.foldl oamNewMaintenancePoint s.points
        pipelines := s.pipelines ++ [names] }, ())
  | .assembleFails created =>
    -- the actions are freed, and not deleted
    ({ s with points := created.foldl oamNewMaintenancePoint s.points }, ())
  | .deletePipeline i =>
    match s.pipelines[i]? with
    | none => (s, ())
    | some names =>
      ({ s with
          points := names.foldl oamUnrefMaintenancePoint s.points
          pipelines := s.pipelines.eraseIdx i }, ())
  | .request caller name fate =>
    -- a request without a start point is deleted
    if s.points name = none then (s, ())
    else (issueRequest { s with points := findMaintenancePoint s.points name } caller name fate, ())
  | .stop i => (s.stop i, ())
  | .mp name => ({ s with points := findMaintenancePoint s.points name }, ())
  | .mask name => (({ s with points := findMaintenancePoint s.points name }).unref name, ())
  | .unmask name fate =>
    if s.points name = none then (s, ())
    else
      let s := ({ s with points := findMaintenancePoint s.points name }).unref name
      -- the request is deleted as if it had a reference
      (if fate = .unpackable then s.unref name else s, ())

end Dnt
