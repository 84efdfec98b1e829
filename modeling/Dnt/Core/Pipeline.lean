import Dnt.Core.Action
import Dnt.Library.Ledger

/-!
# Running Pipelines

How packets move through pipelines, after `pipeline.c`, `action_REPL_execute`,
`iface_common_process`, the allocation of `packet.c` and the queue of
`if_internal.c`. Packets are freed by hand, so each one has to have exactly one
owner: an interface, an iterator, a replicate action, or a queue.

## Main definitions

* `PacketPool`: A heap, which notices when a packet is used or freed that is not there.
* `Frame`: A thread is its call stack, and this is a frame of it.
* `DataPlane`: Threads, and bags of the packets in queues and of the iterators on hold.
* `planeStep`: A step of the data plane.
-/

namespace Dnt

def packetCountLimit : Nat := 200

/-- The packets there are. The data of a packet says whether it has a buffer of
its own and not the shared dummy. -/
structure PacketPool where
  heap : Ledger Bool
  packetCount : Nat

variable (pool : PacketPool)

/-- `new_packet_fast`. The new packet is `pool.heap.next`. -/
def newPacketFast : PacketPool :=
  -- above the limit the packet gets the dummy buffer, and is not counted
  if pool.packetCount ≥ packetCountLimit then { pool with heap := pool.heap.alloc false }
  else { heap := pool.heap.alloc true, packetCount := pool.packetCount + 1 }

/-- `copy_packet`, and `serialize_packet` as far as the pool is concerned: a new
packet `pool.heap.next` made from another one. It always has a buffer. -/
def copyPacket (p : Nat) : PacketPool :=
  { heap := (pool.heap.use p).alloc true, packetCount := pool.packetCount + 1 }

/-- Whether the packet has a buffer of its own. -/
def ownsBuffer (p : Nat) : Bool :=
  pool.heap.lookup p = some true

def deletePacket (p : Nat) : PacketPool :=
  if ownsBuffer pool p = true then
    { heap := pool.heap.free p, packetCount := pool.packetCount - 1 }
  else { pool with heap := pool.heap.free p }

def usePacket (p : Nat) : PacketPool :=
  { pool with heap := pool.heap.use p }

/-- `struct PipelineIterator`. The packet is missing after a replicate action
has taken it. -/
structure PipelineIterator where
  packet : Option Nat
  pipe : List Action
  pos : Nat

def deleteIterator (pi : PipelineIterator) : PacketPool :=
  match pi.packet with
  | none => pool
  | some p => deletePacket pool p

/-- A frame of a call stack. -/
inductive Frame where
  /-- A received packet, and the pipeline the parser finds for it. -/
  | receive (p : Nat) (stream : Option (List Action))
  /-- `pipe_iterator_run`. -/
  | iterator (pi : PipelineIterator)
  /-- The loop of `action_REPL_execute`: the packet, whether it is known to
      belong to the maintenance layer, and the branches still to be served. -/
  | repl (iterpacket : Nat) (isOam : Option Bool) (list : List (List Action))

/-- The result of a step of a thread: its stack, an iterator put on hold, and a
packet put into a queue. -/
structure Advance where
  pool : PacketPool
  stack : List Frame
  held : List PipelineIterator
  queued : List Nat

/-- `iface_common_process`, and the checks on reception. -/
def processReceived (p : Nat) (stream : Option (List Action)) (below : List Frame) : Advance :=
  match stream with
  | none => ⟨deletePacket pool p, below, [], []⟩
  | some pipe =>
    if ownsBuffer pool p = true then ⟨pool, .iterator ⟨some p, pipe, 0⟩ :: below, [], []⟩
    else ⟨deletePacket pool p, below, [], []⟩

/-- The queue of an internal interface gets a copy of the packet. -/
def sendInternal (p : Nat) (a : Action) (c : Conditions) : PacketPool × List Nat :=
  match a with
  | .send true =>
    if c.sendable = true then (copyPacket pool p, [pool.heap.next]) else (pool, [])
  | _ => (pool, [])

def runAction (pi : PipelineIterator) (p : Nat) (below : List Frame) (c : Conditions) (a : Action) :
    Advance:=
  let sent := sendInternal (usePacket pool p) p a c
  match a.execute c with
  | .acrContinue => ⟨sent.1, .iterator { pi with pos := pi.pos + 1 } :: below, [], sent.2⟩
  | .acrDone => ⟨deleteIterator sent.1 pi, below, [], sent.2⟩
  | .acrHold => ⟨sent.1, below, [pi], sent.2⟩

/-- One round of `pipe_iterator_run`. -/
def runIterator (pi : PipelineIterator) (below : List Frame) (c : Conditions) : Advance :=
  match pi.pipe[pi.pos]?, pi.packet with
  | none, _ => ⟨deleteIterator pool pi, below, [], []⟩
  -- an action would be given a null packet
  | some _, none => ⟨{ pool with heap := { pool.heap with fault := true } }, below, [], []⟩
  | some (.repl branches), some p =>
    ⟨usePacket pool p, .repl p none branches :: .iterator { pi with packet := none } :: below,
      [], []⟩
  | some a, some p => runAction pool pi p below c a

/-- `pipeline_process` from the first action. It refuses an empty pipeline. -/
def pipelineProcess (pipe : List Action) (p : Nat) (below : List Frame) : Advance :=
  if pipe.isEmpty = true then ⟨pool, below, [], []⟩
  else ⟨pool, .iterator ⟨some p, pipe, 0⟩ :: below, [], []⟩

/-- One round of the loop over the branches of a replicate action. All but the
last branch get a copy. Masked branches only get packets of the maintenance
layer. After the last branch the iterator below is done. -/
def runReplicate (iterpacket : Nat) (isOam : Option Bool) (list : List (List Action))
    (below : List Frame) (c : Conditions) : Advance:=
  match list, below with
  | [], .iterator pi :: below => ⟨deleteIterator pool pi, below, [], []⟩
  | [], below => ⟨{ pool with heap := { pool.heap with fault := true } }, below, [], []⟩
  | pipe :: rest, below =>
    -- the first masked branch looks into the packet, the others remember
    let known := if c.mask = true then some (isOam.getD c.oam) else isOam
    let pool :=
      if c.mask = true ∧ isOam = none then usePacket pool iterpacket else pool
    if c.mask = true ∧ known = some false then
      -- a masked branch that is the last one has to free the packet
      if rest.isEmpty = true then
        ⟨deletePacket pool iterpacket, .repl iterpacket known rest :: below, [], []⟩
      else ⟨pool, .repl iterpacket known rest :: below, [], []⟩
    else if rest.isEmpty = true then
      pipelineProcess pool pipe iterpacket (.repl iterpacket known rest :: below)
    else
      pipelineProcess (copyPacket pool iterpacket) pipe pool.heap.next
        (.repl iterpacket known rest :: below)

/-- One step of a thread. -/
def advance (c : Conditions) : List Frame → Advance
  | [] => ⟨pool, [], [], []⟩
  | .receive p stream :: below => processReceived pool p stream below
  | .iterator pi :: below => runIterator pool pi below c
  | .repl p isOam list :: below => runReplicate pool p isOam list below c

structure DataPlane where
  pool : PacketPool
  threads : List (List Frame)
  held : List PipelineIterator
  fifo : List Nat

def DataPlane.init : DataPlane :=
  ⟨⟨Ledger.empty, 0⟩, [], [], []⟩

/-- What can happen next. Indices pick a thread, an iterator on hold or a queued
packet. -/
inductive PlaneInput where
  /-- An interface receives a packet. -/
  | receive (stream : Option (List Action))
  /-- An internal interface takes a packet from its queue. -/
  | receiveQueued (k : Nat) (stream : Option (List Action))
  /-- A thread goes on. -/
  | step (k : Nat) (c : Conditions)
  /-- `pipe_iterator_resume`. -/
  | resume (k : Nat)
  /-- `pipe_iteraror_cancel`. -/
  | cancel (k : Nat)

/-- A step of the data plane. An index that picks nothing has no effect: an
iterator is resumed or cancelled once. -/
def planeStep (s : DataPlane) : PlaneInput → DataPlane × Unit
  | .receive stream =>
    ({ s with
        pool := newPacketFast s.pool
        threads := [.receive s.pool.heap.next stream] :: s.threads }, ())
  | .receiveQueued k stream =>
    match s.fifo[k]? with
    | none => (s, ())
    | some p =>
      ({ s with threads := [.receive p stream] :: s.threads, fifo := s.fifo.eraseIdx k }, ())
  | .step k c =>
    match s.threads[k]? with
    | none => (s, ())
    | some stack =>
      let next := advance s.pool c stack
      let others := s.threads.eraseIdx k
      ({ pool := next.pool
         threads := if next.stack.isEmpty = true then others else next.stack :: others
         held := next.held ++ s.held
         fifo := next.queued ++ s.fifo }, ())
  | .resume k =>
    match s.held[k]? with
    | none => (s, ())
    | some pi =>
      ({ s with
          threads := [.iterator { pi with pos := pi.pos + 1 }] :: s.threads
          held := s.held.eraseIdx k }, ())
  | .cancel k =>
    match s.held[k]? with
    | none => (s, ())
    | some pi =>
      ({ s with pool := deleteIterator s.pool pi, held := s.held.eraseIdx k }, ())

end Dnt
