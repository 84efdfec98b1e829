import Dnt.Core.HashMap
import Dnt.Library.Mealy

/-!
# OAM Sessions

The sessions of `oam_session.c`. A stream has sixteen of them, and a request that is
sent on it gets one that is free.

## Main definitions

* `SessionTracker`, `StreamSessions`, `SessionIds`: A session, those of a stream, and all.
* `sessionStep`: A call. A session that nobody has touched for a while is taken away when
  somebody looks for a free one. How long that is depends on the interval of the request,
  calculated with floating point numbers in the source, which is the same as dividing.
-/

namespace Dnt

variable {ρ : Type*}

structure SessionTracker (ρ : Type*) where
  connName : Option String
  accessTime : Int
  intervalMs : Nat
  req : Option ρ
  sent : Nat
  recv : Nat

structure StreamSessions (ρ : Type*) where
  sessions : Fin 16 → SessionTracker ρ
  lastSession : Fin 16

/-- The memory of a new stream is cleared. -/
def newStreamSessions : StreamSessions ρ :=
  ⟨fun _ => ⟨none, 0, 0, none, 0, 0⟩, 0⟩

abbrev SessionIds (ρ : Type*) := HashMap (StreamSessions ρ)

variable (ids : SessionIds ρ)

/-- The sessions of a stream, which are created if there are none. -/
def getStreamSessions (streamName : String) : SessionIds ρ × StreamSessions ρ :=
  match hashmapFind ids streamName with
  | some stream => (ids, stream)
  | none => (hashmapInsert ids streamName newStreamSessions, newStreamSessions)

def stopSessionLocked (s : SessionTracker ρ) : SessionTracker ρ × Int :=
  match s.req with
  | some _ => ({ s with req := none, connName := none }, 1)
  | none => (s, 0)

/-- `MAX(ceil(1.0 + 0.001*interval_ms), 2)`. -/
def sessionTimeout (intervalMs : Nat) : Nat :=
  max (1 + (intervalMs + 999) / 1000) 2

def sessionTimeouted (session : SessionTracker ρ) (now : Int) : Bool :=
  now > session.accessTime + sessionTimeout session.intervalMs

def StreamSessions.set (stream : StreamSessions ρ) (id : Fin 16) (s : SessionTracker ρ) :
    StreamSessions ρ :=
  { stream with sessions := Function.update stream.sessions id s }

/-- The loop over the sessions, from `nextId` on and round. Its state is the session
it is at. -/
def allocLoop (stream : StreamSessions ρ) (now : Int) (nextId : Fin 16) :
    Nat → Fin 16 → StreamSessions ρ × Fin 16
  | 0, id => (stream, id)
  | fuel + 1, id =>
    if (stream.sessions id).req.isNone then (stream, id)
    else if sessionTimeouted (stream.sessions id) now then
      (stream.set id (stopSessionLocked (stream.sessions id)).1, id)
    else if id + 1 = nextId then (stream, id + 1)
    else allocLoop stream now nextId fuel (id + 1)

def allocSessionId (now : Int) (streamName : String) (req : ρ) (connName : Option String)
    (intervalMs : Nat) : SessionIds ρ × Int:=
  let (ids, stream) := getStreamSessions ids streamName
  let nextId := stream.lastSession + 1
  -- sixteen rounds bring the loop back to where it began
  let (stream, id) := allocLoop stream now nextId 16 nextId
  match (stream.sessions id).req with
  | some _ => (hashmapInsert ids streamName stream, -1)
  | none =>
    let s := { stream.sessions id with
      accessTime := now + 1, req := some req, intervalMs := intervalMs, connName := connName }
    (hashmapInsert ids streamName { stream.set id s with lastSession := id }, id)

/-- How many sessions were stopped. -/
def stopSession (streamName : String) (session : Nat) : SessionIds ρ × Int :=
  let (ids, stream) := getStreamSessions ids streamName
  if h : session < 16 then
    let (s, res) := stopSessionLocked (stream.sessions ⟨session, h⟩)
    (hashmapInsert ids streamName (stream.set ⟨session, h⟩ s), res)
  else (ids, 0)

/-- `command_connection_is_same`, where a null pointer is no connection. -/
def commandConnectionIsSame (conn name : Option String) : Bool :=
  match conn, name with
  | none, none => true
  | some conn, some name => conn == name
  | _, _ => false

/-- One session in `stop_all_sessions_of_connection`. -/
def stopOfConnection (conn : Option String) (s : SessionTracker ρ) : SessionTracker ρ × Int :=
  if s.req.isNone then (s, 0)
  else if commandConnectionIsSame conn s.connName then stopSessionLocked s
  else (s, 0)

def stopAllSessionsOfConnection (conn : Option String) : SessionIds ρ × Int :=
  (ids.map fun e =>
     (e.1, { e.2 with sessions := fun i => (stopOfConnection conn (e.2.sessions i)).1 }),
   (ids.map fun e => ((List.finRange 16).map fun i =>
     (stopOfConnection conn (e.2.sessions i)).2).sum).sum)

/-- Who calls it has checked the number of the session. -/
def sessionRecv (now : Int) (streamName : String) (session : Fin 16) : SessionIds ρ :=
  let (ids, stream) := getStreamSessions ids streamName
  let s := stream.sessions session
  hashmapInsert ids streamName
    (stream.set session { s with accessTime := now + 1, recv := (s.recv + 1) % 2 ^ 64 })

/-- The number is one that was allocated. -/
def sessionSent (now : Int) (streamName : String) (session : Fin 16) : SessionIds ρ :=
  let (ids, stream) := getStreamSessions ids streamName
  let s := stream.sessions session
  hashmapInsert ids streamName
    (stream.set session { s with accessTime := now + 1, sent := (s.sent + 1) % 2 ^ 64 })

inductive SessionEvent (ρ : Type*) where
  | alloc (now : Int) (streamName : String) (req : ρ) (connName : Option String) (intervalMs : Nat)
  | stop (streamName : String) (session : Nat)
  | stopAll (conn : Option String)
  | recv (now : Int) (streamName : String) (session : Fin 16)
  | sent (now : Int) (streamName : String) (session : Fin 16)

def sessionStep : SessionEvent ρ → SessionIds ρ × Int
  | .alloc now streamName req connName intervalMs =>
    allocSessionId ids now streamName req connName intervalMs
  | .stop streamName session => stopSession ids streamName session
  | .stopAll conn => stopAllSessionsOfConnection ids conn
  | .recv now streamName session => (sessionRecv ids now streamName session, 0)
  | .sent now streamName session => (sessionSent ids now streamName session, 0)

end Dnt
