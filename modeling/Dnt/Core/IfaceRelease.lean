import Dnt.Library.Crew

/-!
# Releasing an Interface

The two counters of an interface and the two functions that lower them, after
`interface.c`, as they run in several threads. Whoever finds both counters at zero
deletes the interface.

## Main definitions

* `IfaceCounts`: The counters. They are kept after the interface is gone, as what a thread
  then reads is the value that was there last.
* `releaseMove`: A step of a thread. A decrement is atomic and also gives the new value,
  and reading the other counter is a step of its own.
* `releaseRun`: A schedule of such threads.
-/

namespace Dnt

structure IfaceCounts where
  referenceCount : Int
  senderCount : Int
  /-- The two counters at every run of `delete_interface`, oldest first. -/
  deletions : List (Int × Int)
  deriving DecidableEq, Repr

def IfaceCounts.deleteInterface (s : IfaceCounts) : IfaceCounts :=
  { s with deletions := s.deletions ++ [(s.referenceCount, s.senderCount)] }

inductive ReleaseCall where
  /-- `iface_unref`, before its decrement. -/
  | unref
  /-- The last reference is gone, and `sender_count` is to be read. -/
  | unrefRead
  /-- `iface_del_sender`, before its decrement. -/
  | delSender
  /-- The last sender is gone, and `reference_count` is to be read. -/
  | delSenderRead
  | done
  deriving DecidableEq, Repr

def releaseMove (s : IfaceCounts) (c : ReleaseCall) (_ : Unit) : IfaceCounts × ReleaseCall :=
  match c with
  | .unref =>
    let refcount := s.referenceCount - 1
    ({ s with referenceCount := refcount }, if refcount = 0 then .unrefRead else .done)
  | .unrefRead =>
    -- with senders left only the parse tree goes
    if s.senderCount > 0 then (s, .done) else (s.deleteInterface, .done)
  | .delSender =>
    let sendercount := s.senderCount - 1
    ({ s with senderCount := sendercount }, if sendercount = 0 then .delSenderRead else .done)
  | .delSenderRead =>
    if s.referenceCount > 0 then (s, .done) else (s.deleteInterface, .done)
  | .done => (s, .done)

/-- The last reference and `senders` senders are about to be released, each by a
thread of its own. -/
def releaseStart (senders : Nat) : Crew IfaceCounts ReleaseCall :=
  ⟨⟨1, senders, []⟩, .unref :: List.replicate senders .delSender⟩

/-- The threads take steps in the order of their numbers in a schedule. -/
def releaseSchedule (schedule : List Nat) : List (Crew.Event Unit ReleaseCall) :=
  schedule.map fun i => .move i ()

def releaseRun (senders : Nat) (schedule : List Nat) : Crew IfaceCounts ReleaseCall :=
  Mealy.final (Crew.step releaseMove) (releaseStart senders) (releaseSchedule schedule)

end Dnt
