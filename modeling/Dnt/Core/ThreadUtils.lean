import Dnt.Library.Crew

/-!
# Message Queues

The queues of `thread_utils.c`. A queue is a list with a mutex, and a semaphore that
is to count the messages in it.

## Main definitions

* `MessageQueue`: A queue, with the history of its list.
* `MqCall`, `mqMove`: A thread, and a step of it. Pushing posts the semaphore and then
  appends to the list, both under the mutex. Popping waits for the semaphore first.
* `mqWait`: A wait is with no time, some time, or without end. The last kind does not look
  at the result: it goes for the list even if it was interrupted.
-/

namespace Dnt

variable {α : Type*}

/-- The new message is the last. -/
def tqPush (queue : List α) (data : α) : List α :=
  queue ++ [data]

def tqPop : List α → Option α × List α
  | [] => (none, [])
  | data :: rest => (some data, rest)

structure MessageQueue (α : Type*) where
  queue : List α
  /-- The mutex is taken. -/
  locked : Bool
  semaphore : Nat
  /-- The messages in the order in which they were put into the list. -/
  inserted : List α
  /-- The messages in the order in which they were taken out of it. -/
  removed : List α
  deriving DecidableEq, Repr

def newMessagequeue : MessageQueue α :=
  ⟨[], false, 0, [], []⟩

/-- A wait is granted, which takes a semaphore above zero, or it fails. -/
inductive WaitOutcome where
  | granted
  | timeout
  | interrupted
  | error
  deriving DecidableEq, Repr

inductive MqCall (α : Type*) where
  /-- `messagequeue_push`. -/
  | pushLock (data : α)
  | pushPost (data : α)
  | pushInsert (data : α)
  | pushUnlock (data : α)
  | pushed (data : α)
  /-- `messagequeue_pop`, and the second wait after a signal. -/
  | popWait (usec : Int)
  | popWaitAgain
  /-- `tq_pop_data`. -/
  | popLock
  | popRemove
  | popUnlock (result : Option α)
  | popped (result : Option α)
  deriving DecidableEq, Repr

/-- One of the waits of a pop. -/
def mqWait (s : MessageQueue α) (waiting onFailure : MqCall α) (x : WaitOutcome) :
    MessageQueue α × MqCall α :=
  match x with
  | .granted =>
    if s.semaphore = 0 then (s, waiting)
    else ({ s with semaphore := s.semaphore - 1 }, .popLock)
  | _ => (s, onFailure)

def mqMove (s : MessageQueue α) (c : MqCall α) (x : WaitOutcome) : MessageQueue α × MqCall α :=
  match c with
  | .pushLock data =>
    if s.locked = true then (s, .pushLock data) else ({ s with locked := true }, .pushPost data)
  | .pushPost data => ({ s with semaphore := s.semaphore + 1 }, .pushInsert data)
  | .pushInsert data =>
    ({ s with queue := tqPush s.queue data, inserted := s.inserted ++ [data] },
     .pushUnlock data)
  | .pushUnlock data => ({ s with locked := false }, .pushed data)
  | .pushed data => (s, .pushed data)
  | .popWait usec =>
    if usec = 0 then
      -- there is nothing to wait for
      mqWait s (.popped none) (.popped none) x
    else if usec > 0 then
      mqWait s (.popWait usec) (if x = .interrupted then .popWaitAgain else .popped none) x
    else
      -- such a wait has no timeout, and its result is not looked at
      mqWait s (.popWait usec) (if x = .timeout then .popWait usec else .popLock) x
  | .popWaitAgain => mqWait s .popWaitAgain (.popped none) x
  | .popLock => if s.locked = true then (s, .popLock) else ({ s with locked := true }, .popRemove)
  | .popRemove =>
    let popped := tqPop s.queue
    ({ s with queue := popped.2, removed := s.removed ++ popped.1.toList }, .popUnlock popped.1)
  | .popUnlock result => ({ s with locked := false }, .popped result)
  | .popped result => (s, .popped result)

/-- A thread begins to push or to pop, or the thread with number `i` takes a step. -/
inductive MqEvent (α : Type*) where
  | push (data : α)
  | pop (usec : Int)
  | move (i : Nat) (x : WaitOutcome)
  deriving DecidableEq, Repr

def mqStep (s : Crew (MessageQueue α) (MqCall α)) :
    MqEvent α → Crew (MessageQueue α) (MqCall α) × Unit
  | .push data => Crew.step mqMove s (.start (.pushLock data))
  | .pop usec => Crew.step mqMove s (.start (.popWait usec))
  | .move i x => Crew.step mqMove s (.move i x)

/-- An empty queue that nobody uses yet. -/
def mqStart : Crew (MessageQueue α) (MqCall α) :=
  ⟨newMessagequeue, []⟩

def mqRun (es : List (MqEvent α)) : Crew (MessageQueue α) (MqCall α) :=
  Mealy.final mqStep mqStart es

end Dnt
