import Dnt.Core.OamMaintenance

/-!
# In-band Messages

What a maintenance point does with the message of a packet, after
`oam_message.c`: whether the packet is sent on, and whether its message has been
changed and has to be written again. Only a ping that records its route changes.

Replies are sent out of band. Whether that works is an input here. The contents
of replies and notifications are left out, but not what is asked of a message before
they are made.

## Main definitions

* `processPingRequest`, `processRlistRequest`, `processTriggerRequest`: The handlers.
* `processInbandMessage`: Whether a message goes on, and whether it was changed.
* `inbandReceive`: One round of the receiver, with a packet.
* `inbandProcessed`: The handler that did its work in such a round.
-/

namespace Dnt

/-- The common part of answering a ping or a list request: it has to be a
request, and say where the answer goes. -/
def replySent (js : JsonObject) (sent : Bool) : Bool :=
  jsonObjectGetString js "code" == some "request" && (jsonObjectGetObject js "return").isSome &&
    sent

def processPingRequest (js : JsonObject) (sent : Bool) : Bool :=
  replySent js sent

def processRlistRequest (js : JsonObject) (sent : Bool) : Bool :=
  replySent js sent

/-- What `process_rping_request` wants before it starts the ping, or sends back why it
does not. -/
def rpingComplete (js : JsonObject) : Bool :=
  jsonObjectGetString js "code" == some "request" && (jsonObjectGetObject js "return").isSome &&
    (jsonObjectGetString js "stream").isSome && (jsonObjectGetNumber js "session").isSome &&
    (jsonObjectGetString js "command").isSome

/-- The members a notification of a trigger is made of. -/
def triggerComplete (js : JsonObject) : Bool :=
  (jsonObjectGetNumber js "seq").isSome && (jsonObjectGetNumber js "level").isSome &&
    (jsonObjectGetNumber js "nodeid").isSome && (jsonObjectGetNumber js "session").isSome &&
    (jsonObjectGetObject js "source").isSome && (jsonObjectGetString js "stream").isSome &&
    (jsonObjectGetString js "target").isSome

/-- A trigger only makes a notification. The first component is what is returned, which is
false in any case, and the second one says whether the notification is pushed. -/
def processTriggerRequest (js : JsonObject) : Bool × Bool :=
  (false, jsonObjectGetString js "code" == some "request" && triggerComplete js)

/-- Whether a message is sent on, by its target. One for any point needs an
answer first, one for this point ends here. -/
def targetOutcome (mp : OamMaintenancePoint) (target : String) (processed : Bool) : Bool :=
  if target = "any" then
    if processed = false then false else decide (mp.type ≠ .stop)
  else if target = mp.name then false
  else decide (mp.type ≠ .stop)

/-- What is to be done with the packet. -/
structure InbandOutcome where
  /-- The packet is sent on. -/
  forward : Bool
  /-- The message, if it has been changed. -/
  modified : Option JsonObject

def recordRoute (mp : OamMaintenancePoint) (js : JsonObject) : Option JsonObject :=
  (jsonObjectGetArray js "rr").map fun vals =>
    hashmapInsert js "rr" (.array (vals ++ [.string mp.name]))

/-- `process_inband_message`. A message without its type, code, target or level
is dropped. -/
def processInbandMessage (mp : OamMaintenancePoint) (js : JsonObject) (ttl : UInt8) (sent : Bool) :
    InbandOutcome :=
  match jsonObjectGetString js "type", jsonObjectGetString js "code",
      jsonObjectGetString js "target", jsonObjectGetNumber js "level" with
  | some type, some _, some target, some _ =>
    let alive : Bool := ttl ≠ 0
    if type = "ping" then
      -- the route is recorded even if the ping ends here
      ⟨alive && targetOutcome mp target (processPingRequest js sent), recordRoute mp js⟩
    else if type = "rping" then ⟨alive && targetOutcome mp target false, none⟩
    else if type = "rlist" then
      ⟨alive && targetOutcome mp target (processRlistRequest js sent), none⟩
    else if type = "trigger" then
      ⟨alive && targetOutcome mp target (processTriggerRequest js).1, none⟩
    else
      -- mask and unmask signals end here, and so does what is not known
      ⟨false, none⟩
  | _, _, _, _ => ⟨false, none⟩

inductive InbandHandler where
  | ping
  | rping
  | rlist
  | trigger
  deriving DecidableEq, Repr

/-- Which of these `process_inband_message` calls, if any. It never calls two. -/
def inbandHandler (mp : OamMaintenancePoint) (js : JsonObject) (ttl : UInt8) :
    Option InbandHandler :=
  match jsonObjectGetString js "type", jsonObjectGetString js "code",
      jsonObjectGetString js "target", jsonObjectGetNumber js "level" with
  | some type, some _, some target, some _ =>
    let here : Bool := target = "any" || target = mp.name
    if type = "ping" then
      -- where its time is over a ping is answered, other requests are not
      if ttl = 0 || here then some .ping else none
    else if type = "rping" then
      if ttl ≠ 0 && target ≠ "any" && target = mp.name then some .rping else none
    else if type = "rlist" then if ttl ≠ 0 && here then some .rlist else none
    else if type = "trigger" then if ttl ≠ 0 && here then some .trigger else none
    else none
  | _, _, _, _ => none

inductive InbandAction where
  | cancel
  | resume (p : Packet)

def inbandReceive (pseudoAddr : Nat) (lib : JsonLibrary) (mp : OamMaintenancePoint) (p : Packet)
    (sent : Bool) : InbandAction :=
  if mpCompareLevel mp p < 0 then .cancel
  else if mpCompareLevel mp p > 0 then .resume p
  else match mpUnpackMessage lib mp p with
    | none => .cancel
    | some js =>
      let outcome := processInbandMessage mp js (mpGetTtl mp p) sent
      if outcome.forward = false then .cancel
      else match outcome.modified with
        | none => .resume p
        | some msg =>
          match mpPackMessagePayload pseudoAddr lib mp p msg with
          | none => .cancel
          | some q => .resume q

/-- Whether a handler does its work: the reply is sent, or the notification pushed. -/
def InbandHandler.processes (js : JsonObject) (sent : Bool) : InbandHandler → Bool
  | .ping => processPingRequest js sent
  | .rping => rpingComplete js
  | .rlist => processRlistRequest js sent
  | .trigger => (processTriggerRequest js).2

/-- The handler that is called in such a round, if it does its work. -/
def inbandProcessed (lib : JsonLibrary) (mp : OamMaintenancePoint) (p : Packet) (sent : Bool) :
    Option InbandHandler :=
  if mpCompareLevel mp p = 0 then
    (mpUnpackMessage lib mp p).bind fun js =>
      (inbandHandler mp js (mpGetTtl mp p)).filter (InbandHandler.processes js sent)
  else none

/-- The message that is written into the packet in such a round, if any. -/
def inbandMessage (lib : JsonLibrary) (mp : OamMaintenancePoint) (p : Packet) (sent : Bool) :
    Option JsonObject :=
  if mpCompareLevel mp p = 0 then
    (mpUnpackMessage lib mp p).bind fun js =>
      let outcome := processInbandMessage mp js (mpGetTtl mp p) sent
      if outcome.forward = true then outcome.modified else none
  else none

def inbandText (lib : JsonLibrary) (mp : OamMaintenancePoint) (p : Packet) (sent : Bool) :
    Option (List UInt8) :=
  (inbandMessage lib mp p sent).bind fun msg =>
    if packetIsLinear p = false then none
    else lib.jsonSerialize (.object (mp.payloadMembers msg))

def inbandStores (pseudoAddr : Nat) (lib : JsonLibrary) (mp : OamMaintenancePoint) (p : Packet)
    (sent : Bool) : List (Store UInt8) :=
  match inbandText lib mp p sent with
  | none => []
  | some text => mpPayloadStores pseudoAddr mp p text

end Dnt
