import Dnt.Core.TimeUtils

/-!
# Delay Queue

The thread of `delay.c` that holds packets until their deadlines. While it is late it
does not look into its mailbox. After a minute without packets it retires the mailbox,
sleeps a little, looks into it once more, and deletes it. Nothing in a pipeline can reach
the list while a packet is sent.

## Main definitions

* `DelayThread`: The thread and its list, sorted by deadlines.
* `delayStep`: What it does between two looks at something shared. What it finds there,
  and the clock, are inputs.
-/

namespace Dnt

structure DelayedPacket (ι : Type*) where
  pi : ι
  pipe : String
  timestamp : Nat
  delay : Timespec
  deriving DecidableEq, Repr

/-- What the thread finds in its mailbox. -/
inductive MboxMessage (ι : Type*) where
  | packet (p : DelayedPacket ι)
  | flushSignal
  deriving DecidableEq, Repr

/-- `struct DelayQueue`. Elements are told apart by their address, and a new
element gets a new one. -/
structure DelayElem (ι : Type*) where
  addr : Nat
  packet : DelayedPacket ι
  deadline : Timespec
  deriving DecidableEq, Repr

inductive DelayPhase where
  /-- At the top of its loop. -/
  | waiting
  /-- Nothing came for a minute; about to take the mutex. -/
  | idle
  /-- Its mailbox is retired; before the last look into it. -/
  | sleeping
  /-- Out of the loop; about to delete the mailbox. -/
  | exiting
  | gone
  /-- It used the flush signal as if it were a packet. -/
  | crashed
  deriving DecidableEq, Repr

structure DelayThread (ι : Type*) where
  phase : DelayPhase
  timeoutUs : Int
  queue : List (DelayElem ι)
  lastAlert : Timespec
  /-- The address of the next element. -/
  nextAddr : Nat
  deriving DecidableEq, Repr

structure Sending (ι : Type*) where
  queue : List (DelayElem ι)
  elem : DelayElem ι
  deriving DecidableEq, Repr

/-- What a step does to the rest of the program: the packet it took from the
mailbox, the packets it sent, the pipeline whose deadline was missed, and
whether it tells the operator. -/
structure DelayOutput (ι : Type*) where
  taken : Option (DelayElem ι)
  sent : List (Sending ι)
  exceeded : Option String
  alert : Bool
  deriving DecidableEq, Repr

variable {ι : Type*}

def DelayOutput.silent : DelayOutput ι :=
  ⟨none, [], none, false⟩

def idleTimeoutUs : Int := 60 * 1000 * 1000

def alertCooldown : Int := 5000000

/-- Conversion of a 64-bit integer to `int`. -/
def toInt32 (n : Int) : Int :=
  n.bmod (2 ^ 32)

def newDelayThread : DelayThread ι where
  phase := .waiting
  timeoutUs := idleTimeoutUs
  queue := []
  lastAlert := ⟨0, 0⟩
  nextAddr := 0

/-- Link an element into the list, in front of the first one it is not later
than. -/
def queueLink (n : DelayElem ι) : List (DelayElem ι) → List (DelayElem ι)
  | [] => [n]
  | iter :: rest =>
    if timespecGt n.deadline iter.deadline then iter :: queueLink n rest else n :: iter :: rest

/-- The element for a packet that is taken from the mailbox at `now`. -/
def newDelayElem (addr : Nat) (p : DelayedPacket ι) (now : Timespec) : DelayElem ι :=
  ⟨addr, p, timespecadd (timespecFromTsntstamp p.timestamp now) p.delay⟩

def firstTimeout (queue : List (DelayElem ι)) (now : Timespec) : Option Int :=
  queue.head?.map fun f => timeDiffUs f.deadline now

/-- Take a packet into the list. The clock is read at `now`, and once more at
`later` when the first packet is late. -/
def queuePush (t : DelayThread ι) (p : DelayedPacket ι) (now later : Timespec) :
    DelayThread ι × DelayOutput ι :=
  let n := newDelayElem t.nextAddr p now
  let queue := queueLink n t.queue
  let timeout := (firstTimeout queue now).getD 0
  let exceeded := if timeout ≤ 0 then queue.head?.map fun f => f.packet.pipe else none
  let alert := decide (toInt32 timeout ≤ 0 ∧ timeDiffUs later t.lastAlert > alertCooldown)
  ({ t with
      timeoutUs := toInt32 timeout
      queue := queue
      lastAlert := if alert = true then later else t.lastAlert
      nextAddr := t.nextAddr + 1 }, ⟨some n, [], exceeded, alert⟩)

def queueSendAll : List (DelayElem ι) → List (Sending ι)
  | [] => []
  | f :: rest => ⟨f :: rest, f⟩ :: queueSendAll rest

/-- The thread looks at something shared. The messages are the results of
popping from the mailbox. -/
inductive DelayInput (ι : Type*) where
  /-- The top of the loop. -/
  | pop (msg : Option (MboxMessage ι)) (now later : Timespec)
  /-- Whether the global pointer still leads to its mailbox. -/
  | check (active : Bool)
  /-- The last look into the mailbox. -/
  | popAgain (msg : Option (MboxMessage ι)) (now later : Timespec)
  | delete
  deriving DecidableEq, Repr

/-- The wait was over, or was skipped: send the first packet. -/
def queueSendFirst (t : DelayThread ι) (now : Timespec) : DelayThread ι × DelayOutput ι :=
  match t.queue with
  | [] => ({ t with phase := .idle }, .silent)
  | f :: rest =>
    ({ t with
        queue := rest
        timeoutUs := ((firstTimeout rest now).map toInt32).getD idleTimeoutUs },
      ⟨none, [⟨f :: rest, f⟩], none, false⟩)

theorem queueSendFirst_nil {t : DelayThread ι} (now : Timespec) (h : t.queue = []) :
    queueSendFirst t now = ({ t with phase := .idle }, .silent) := by simp [queueSendFirst, h]

theorem queueSendFirst_cons {t : DelayThread ι} (now : Timespec) {f : DelayElem ι}
    {rest : List (DelayElem ι)} (h : t.queue = f :: rest) :
    queueSendFirst t now =
      ({ t with
          queue := rest
          timeoutUs := ((firstTimeout rest now).map toInt32).getD idleTimeoutUs },
        ⟨none, [⟨f :: rest, f⟩], none, false⟩) := by
  unfold queueSendFirst
  rw [h]

def delayStep (t : DelayThread ι) (input : DelayInput ι) : DelayThread ι × DelayOutput ι :=
  match t.phase, input with
  | .waiting, .pop msg now later =>
    -- the mailbox is skipped if we are running late
    match if t.timeoutUs > 0 then msg else none with
    | some .flushSignal =>
      ({ t with queue := [], phase := .exiting }, ⟨none, queueSendAll t.queue, none, false⟩)
    | some (.packet p) => queuePush t p now later
    | none => queueSendFirst t now
  | .idle, .check active =>
    ({ t with phase := if active = true then .sleeping else .exiting }, .silent)
  | .sleeping, .popAgain msg now later =>
    match msg with
    -- not told apart from a packet here
    | some .flushSignal => ({ t with phase := .crashed }, .silent)
    | some (.packet p) => queuePush { t with phase := .waiting } p now later
    | none => ({ t with phase := .exiting }, .silent)
  | .exiting, .delete => ({ t with phase := .gone }, .silent)
  | _, _ => (t, .silent)

end Dnt
