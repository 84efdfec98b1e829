import Dnt.Library.Crew

/-!
# Internal Interfaces

The interfaces of `if_internal.c`, between two parts of the node. The thread that
receives reads from an event file descriptor and then takes a packet, without asking
whether there is one. Reading or writing at addresses that were not allocated or have
been freed has no result.

## Main definitions

* `IntIface`: A ring of nodes around a sentinel, in which packets wait, and the event file
  descriptor that counts them.
* `intSendMove`, `intRecvMove`: A step of a thread that sends, and of the one that receives.
* `intRun`: Interleavings of them.
-/

namespace Dnt

open Function

variable {α : Type}

/-- A node. The mutex of the sentinel is with the interface. -/
structure PacketFifo (α : Type) where
  p : Option α
  prev : Option Nat
  next : Option Nat
  deriving DecidableEq, Repr

abbrev FifoMemory (α : Type) := Nat → Option (PacketFifo α)

variable (m : FifoMemory α)

def FifoMemory.next (a : Nat) : Option Nat :=
  (m a).bind PacketFifo.next

def FifoMemory.prev (a : Nat) : Option Nat :=
  (m a).bind PacketFifo.prev

def FifoMemory.packet (a : Nat) : Option α :=
  (m a).bind PacketFifo.p

def FifoMemory.setNext (a : Nat) (link : Option Nat) : Option (FifoMemory α) :=
  (m a).map fun node => update m a (some { node with next := link })

def FifoMemory.setPrev (a : Nat) (link : Option Nat) : Option (FifoMemory α) :=
  (m a).map fun node => update m a (some { node with prev := link })

/-- Only the sentinel. -/
def newPacketfifo (pf : Nat) : FifoMemory α :=
  update (fun _ => none) pf (some ⟨none, none, none⟩)

/-- The part of `packetfifo_insert` under the mutex. The node `n` is already there. -/
def packetfifoInsert (pf n : Nat) : Option (FifoMemory α) := do
  let sentinel ← m pf
  match sentinel.next with
  | some first =>
    let m ← m.setNext n (some first)
    let m ← m.setPrev n (some pf)
    let m ← m.setPrev first (some n)
    m.setNext pf (some n)
  | none =>
    let m ← m.setNext n (some pf)
    let m ← m.setPrev n (some pf)
    let m ← m.setNext pf (some n)
    m.setPrev pf (some n)

/-- The part of `packetfifo_get` under the mutex: the node that was taken out, to be
freed, and its packet, or nothing if the ring is empty. -/
def packetfifoGet (pf : Nat) : Option (FifoMemory α × Option (Nat × Option α)) := do
  let sentinel ← m pf
  match sentinel.prev with
  | none => some (m, none)
  | some del =>
    let node ← m del
    if sentinel.next = some del then
      -- now the ring is empty
      let m ← m.setNext pf none
      let m ← m.setPrev pf none
      some (m, some (del, node.p))
    else
      let before ← node.prev
      let m ← m.setNext before node.next
      let after ← m.next del
      let m ← m.setPrev after (m.prev del)
      some (m, some (del, node.p))

inductive IfaceState where
  | init
  | opened
  | shutdown
  deriving DecidableEq, Repr

inductive IntRecvAt (α : Type) where
  | absent
  /-- `int_recv_loop`. -/
  | loop
  | stopped
  /-- `int_recv`: after `read`, where `ok` says whether it failed. -/
  | wait
  | check (ok : Bool)
  /-- `packetfifo_get`. -/
  | lock
  | take
  | unlock (taken : Option (Nat × Option α))
  | free (del : Nat) (p : Option α)
  /-- The packet is counted and processed. -/
  | process (p : Option α)
  | fault
  deriving DecidableEq, Repr

structure IntIface (α : Type) where
  memory : FifoMemory α
  /-- The sentinel. -/
  fifo : Nat
  locked : Bool
  /-- The counter of the event file descriptor. -/
  recvfd : Nat
  state : IfaceState
  receiver : IntRecvAt α
  /-- The packets in the order in which they were put into the ring. -/
  inserted : List α
  /-- The packets in the order in which they were processed. -/
  received : List α

inductive IntSendAt (α : Type) where
  | check (headerCount : Nat) (p : α)
  /-- `packetfifo_insert`. -/
  | alloc (p : α)
  | lock (n : Nat) (p : α)
  | link (n : Nat) (p : α)
  | unlock
  /-- `write`. -/
  | post
  | sent (ok : Bool)
  | fault
  deriving DecidableEq, Repr

/-- What is not up to the thread: the address of an allocation, and whether writing
to the descriptor works. -/
structure IntChoice where
  address : Nat
  ok : Bool
  deriving DecidableEq, Repr

def intSendMove (s : IntIface α) (c : IntSendAt α) (x : IntChoice) : IntIface α × IntSendAt α :=
  match c with
  | .check headerCount p =>
    if s.state = .init then (s, .sent false)
    else if headerCount < 1 then (s, .sent false)
    else (s, .alloc p)
  | .alloc p =>
    -- an allocation gets an address that is not in use
    if (s.memory x.address).isSome then (s, .alloc p)
    else ({ s with memory := update s.memory x.address (some ⟨some p, none, none⟩) },
      .lock x.address p)
  | .lock n p => if s.locked = true then (s, .lock n p) else ({ s with locked := true }, .link n p)
  | .link n p =>
    match packetfifoInsert s.memory s.fifo n with
    | none => (s, .fault)
    | some memory => ({ s with memory := memory, inserted := s.inserted ++ [p] }, .unlock)
  | .unlock => ({ s with locked := false }, .post)
  | .post =>
    -- an error of `write` is only logged
    ({ s with recvfd := s.recvfd + if x.ok then 1 else 0 }, .sent true)
  | .sent ok => (s, .sent ok)
  | .fault => (s, .fault)

/-- The next step of the receiving thread, where `ok` is what `read` does. -/
def intRecvMove (s : IntIface α) (ok : Bool) : IntIface α :=
  match s.receiver with
  | .absent => s
  | .loop => { s with receiver := if s.state = .shutdown then .stopped else .wait }
  | .stopped => s
  | .wait =>
    if ok = false then { s with receiver := .check false }
    else if s.recvfd = 0 then s
    else { s with recvfd := s.recvfd - 1, receiver := .check true }
  | .check ok =>
    if s.state = .shutdown then { s with receiver := .loop }
    else if ok = false then { s with receiver := .loop }
    else { s with receiver := .lock }
  | .lock => if s.locked = true then s else { s with locked := true, receiver := .take }
  | .take =>
    match packetfifoGet s.memory s.fifo with
    | none => { s with receiver := .fault }
    | some (memory, taken) => { s with memory := memory, receiver := .unlock taken }
  | .unlock none => { s with locked := false, receiver := .process none }
  | .unlock (some (del, p)) => { s with locked := false, receiver := .free del p }
  | .free del p => { s with memory := update s.memory del none, receiver := .process p }
  | .process none =>
    -- the length of the packet is read
    { s with receiver := .fault }
  | .process (some p) => { s with received := s.received ++ [p], receiver := .loop }
  | .fault => s

/-- `int_open` launches the receiving thread, once. -/
def intOpen (s : IntIface α) : IntIface α :=
  if s.state = .init then { s with recvfd := 0, state := .opened, receiver := .loop } else s

inductive IntEvent (α : Type) where
  | send (headerCount : Nat) (p : α)
  | move (i : Nat) (x : IntChoice)
  | recv (ok : Bool)
  | launch
  | shutdown
  deriving DecidableEq, Repr

def intStep (s : Crew (IntIface α) (IntSendAt α)) :
    IntEvent α → Crew (IntIface α) (IntSendAt α) × Unit
  | .send headerCount p => Crew.step intSendMove s (.start (.check headerCount p))
  | .move i x => Crew.step intSendMove s (.move i x)
  | .recv ok => ({ s with shared := intRecvMove s.shared ok }, ())
  | .launch => ({ s with shared := intOpen s.shared }, ())
  | .shutdown => ({ s with shared := { s.shared with state := .shutdown } }, ())

/-- `new_internal_interface`, with the sentinel at address `pf`. -/
def newInternalInterface (pf : Nat) : Crew (IntIface α) (IntSendAt α) :=
  ⟨⟨newPacketfifo pf, pf, false, 0, .init, .absent, [], []⟩, []⟩

def intRun (pf : Nat) (es : List (IntEvent α)) : Crew (IntIface α) (IntSendAt α) :=
  Mealy.final intStep (newInternalInterface pf) es

end Dnt
