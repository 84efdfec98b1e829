import Dnt.Library.Crew

/-!
# References to Maintenance Points

How threads get hold of maintenance points and give them back, after
`find_maintenance_point` and `oam_unref_maintenance_point`. The count of a point is
raised under the lock of the table, but lowered without it: a thread takes the lock
after that, to remove the point if its count has become zero.

## Main definitions

* `MpTable`: The points and the lock.
* `MpUser`, `mpMove`: A thread, which is the life of one reference, and a step of it. A
  crash ends the run.
-/

namespace Dnt

open Function

structure MpTable where
  /-- `mp_hash_lock` is taken. -/
  locked : Bool
  /-- The names in `mp_hash`, or nothing if it does not exist. -/
  mpHash : Option (List String)
  referenceCount : String → Int
  /-- How many times a point was freed. -/
  freed : String → Nat
  crashed : Bool

inductive MpUser where
  /-- `find_maintenance_point`, up to its return. -/
  | findLock (name : String)
  | lookUp (name : String)
  | increment (name : String)
  | findUnlock (name : String) (found : Bool)
  /-- The point was found, and has not been given back. -/
  | holds (name : String)
  /-- `oam_unref_maintenance_point`, with the count it has seen. -/
  | unrefLock (name : String) (refcount : Int)
  | remove (name : String) (refcount : Int)
  | checkEmpty
  | unrefUnlock
  | done
  deriving DecidableEq, Repr

def MpTable.crash (s : MpTable) : MpTable :=
  { s with crashed := true }

/-- `hashmap_remove`, which frees the point if it is there. -/
def MpTable.hashRemove (s : MpTable) (names : List String) (name : String) : MpTable :=
  if name ∈ names then
    { s with
      mpHash := some (names.filter (· ≠ name))
      freed := update s.freed name (s.freed name + 1) }
  else s

def mpMove (s : MpTable) (c : MpUser) (_ : Unit) : MpTable × MpUser :=
  if s.crashed = true then (s, c)
  else match c with
    | .findLock name =>
      if s.locked = true then (s, .findLock name) else ({ s with locked := true }, .lookUp name)
    | .lookUp name =>
      match s.mpHash with
      | none => (s, .findUnlock name false)
      | some names => (s, if name ∈ names then .increment name else .findUnlock name false)
    | .increment name =>
      let refcount := s.referenceCount name + 1
      ({ s with referenceCount := update s.referenceCount name refcount },
       .findUnlock name true)
    | .findUnlock name found =>
      ({ s with locked := false }, if found = true then .holds name else .done)
    | .holds name =>
      -- giving a point back begins with the decrement
      let refcount := s.referenceCount name - 1
      ({ s with referenceCount := update s.referenceCount name refcount },
       .unrefLock name refcount)
    | .unrefLock name refcount =>
      if s.locked = true then (s, .unrefLock name refcount)
      else ({ s with locked := true }, .remove name refcount)
    | .remove name refcount =>
      if refcount = 0 then
        match s.mpHash with
        | none => (s.crash, .remove name refcount)
        | some names => (s.hashRemove names name, .checkEmpty)
      else (s, .checkEmpty)
    | .checkEmpty =>
      match s.mpHash with
      | none => (s.crash, .checkEmpty)
      | some [] => ({ s with mpHash := none }, .unrefUnlock)
      | some (_ :: _) => (s, .unrefUnlock)
    | .unrefUnlock => ({ s with locked := false }, .done)
    | .done => (s, .done)

/-- A new thread looks for a point, or the thread with number `i` takes a step. -/
inductive MpEvent where
  | find (name : String)
  | move (i : Nat)
  deriving DecidableEq, Repr

def mpStep (s : Crew MpTable MpUser) : MpEvent → Crew MpTable MpUser × Unit
  | .find name => Crew.step mpMove s (.start (.findLock name))
  | .move i => Crew.step mpMove s (.move i ())

end Dnt
