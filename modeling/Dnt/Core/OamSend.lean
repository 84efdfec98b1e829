import Dnt.Core.OamMaintenance
import Dnt.Core.Pipeline

/-!
# Sending Requests

How a maintenance point sends a packet of its own. Until the packet is in a pipeline, it
belongs to the function that has made it.

## Main definitions

* `sendRequest`, `sendMaskSignal`: A packet is made and filled with a message.
* `mpInjectPacket`: It is put into a pipeline at the place of the point, which may have
  no pipeline.
* `injectStep`: Steps of the data plane with these among them.
-/

namespace Dnt

structure RequestOptions where
  mepStop : String
  returnAddr : JsonValue
  recordRoute : Bool
  objectState : Bool
  measureDelay : Bool
  remoteCommand : String
  /-- What `mp_get_state_json` says about the point. -/
  mpState : JsonValue

def requestMessage (mp : OamMaintenancePoint) (req : OamRequest) (opts : RequestOptions)
    (js : JsonObject) : JsonObject :=
  let js := jsonInsertAll js
    [("stream", .string (req.originatorStream.getD mp.streamName)),
     ("target", .string opts.mepStop)]
  let js :=
    if req.type = "trigger" then
      jsonInsertAll js [("seq", .number req.seq.toNat), ("source", opts.mpState)]
    else hashmapInsert js "return" opts.returnAddr
  let js :=
    if req.type = "ping" then
      let js := if opts.recordRoute = true then
        hashmapInsert js "rr" (.array [.string mp.name]) else js
      let js := if opts.objectState = true then hashmapInsert js "object" (.bool true) else js
      if opts.measureDelay = true then hashmapInsert js "delay" (.bool true) else js
    else js
  if req.type = "rping" then hashmapInsert js "command" (.string opts.remoteCommand) else js

structure InjectionPoint where
  pipe : List Action
  pipePosIdx : Nat

/-- `pipeline_process`. An index behind the last action is refused. -/
def pipelineProcessAt (pool : PacketPool) (pipe : List Action) (index p : Nat)
    (below : List Frame) : Advance :=
  if index ≥ pipe.length then ⟨pool, below, [], []⟩
  else ⟨pool, .iterator ⟨some p, pipe, index⟩ :: below, [], []⟩

/-- The newest injection point is used. Nobody looks whether the pipeline has taken the
packet. -/
def mpInjectPacket (pool : PacketPool) (injections : List InjectionPoint) (p : Nat) : Advance :=
  match injections with
  | [] => ⟨pool, [], [], []⟩
  | point :: _ => pipelineProcessAt pool point.pipe point.pipePosIdx p []

/-- A request, and what it meets: the point with its injection points, and what is in the
buffer of the packet. -/
structure RequestCall where
  pseudoAddr : Nat
  env : SendContext
  mp : OamMaintenancePoint
  injections : List InjectionPoint
  buf : Nat → UInt8
  req : OamRequest
  opts : RequestOptions

section

variable (lib : JsonLibrary) (r : RequestCall)

/-- The packet with its headers, and the members that go with them. -/
def RequestCall.packed : OamPacket × JsonObject :=
  mpPackMessageHeader r.env r.mp (newOamPacket r.buf) r.req

/-- `send_request`. The new packet is `pool.heap.next`. -/
def sendRequest (pool : PacketPool) : Advance :=
  let packet := pool.heap.next
  let pool := newPacketFast pool
  let js := requestMessage r.mp r.req r.opts r.packed.2
  match mpPackMessagePayload r.pseudoAddr lib r.mp r.packed.1.packet js with
  | none => ⟨pool, [], [], []⟩
  | some _ => mpInjectPacket pool r.injections packet

/-- One mask or unmask signal. Its message only has a target besides the members of its
headers, and the packet is deleted if it cannot be written. -/
def sendMaskSignal (pool : PacketPool) : Advance :=
  let packet := pool.heap.next
  let pool := newPacketFast pool
  let js := hashmapInsert r.packed.2 "target" (.string "nexthop")
  match mpPackMessagePayload r.pseudoAddr lib r.mp r.packed.1.packet js with
  | none => ⟨deletePacket pool packet, [], [], []⟩
  | some _ => mpInjectPacket pool r.injections packet

end

/-- What can happen on the data plane. -/
inductive InjectInput where
  | plane (input : PlaneInput)
  | request (r : RequestCall)
  | maskSignal (r : RequestCall)

/-- The pipeline runs on the thread that has sent the request. -/
def DataPlane.launch (s : DataPlane) (next : Advance) : DataPlane :=
  { s with
    pool := next.pool
    threads := if next.stack.isEmpty = true then s.threads else next.stack :: s.threads }

def injectStep (lib : JsonLibrary) (s : DataPlane) : InjectInput → DataPlane × Unit
  | .plane input => planeStep s input
  | .request r => (s.launch (sendRequest lib r s.pool), ())
  | .maskSignal r => (s.launch (sendMaskSignal lib r s.pool), ())

end Dnt
