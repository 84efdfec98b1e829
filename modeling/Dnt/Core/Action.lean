import Mathlib.Algebra.Order.Ring.Int

/-!
# Actions

The actions of a pipeline, after `action.h` and `action.c`, as far as the pipeline can
see them: what an action tells it to do with the packet. The result of most actions is
fixed. The others depend on the packet or on the state of some object, which are inputs.

## Main definitions

* `Action`: An action of a pipeline.
* `Conditions`: What actions find out when they run.
* `Action.execute`: The result of running one.
-/

namespace Dnt

inductive ActionResult where
  /-- The packet can go to the next action. -/
  | acrContinue
  /-- End of processing, the packet is freed. -/
  | acrDone
  /-- Processing stops, someone else has the packet now. -/
  | acrHold
  deriving DecidableEq, Repr

/-- `enum ActionType`, without the three that are constructors of `Action`. -/
inductive ActionType where
  | add
  | checksum
  | del
  | drop
  | edit
  | elim
  | filteroam
  | oaminject
  | oamreceive
  | pof
  | readseq
  | readtstamp
  | seqgen
  | setlength
  | ttlcheck
  | ttlreduce
  | verify
  | writeseq
  | writetstamp
  deriving DecidableEq, Repr

/-- An action of a pipeline. A delay may be left to the network card. A packet
can be sent on an internal interface, which keeps a copy. A replicate action
has a pipeline for each of its branches. -/
inductive Action where
  | simple (type : ActionType)
  | delay (offload : Bool)
  | send (internal : Bool)
  | repl (branches : List (List Action))

/-- What actions find out when they run. -/
structure Conditions where
  /-- The packet passes the check: recovery lets it through, the time to live
      is not over, or the checksum is right. -/
  pass : Bool
  /-- The packet belongs to the maintenance layer. -/
  oam : Bool
  /-- The packet ordering function has no room left. -/
  full : Bool
  /-- The interface is open and the packet has headers to send. -/
  sendable : Bool
  /-- The next branch of a replicate action is masked. -/
  mask : Bool
  deriving DecidableEq, Repr

/-- The result of running an action. `action_REPL_execute` always ends with
`acrDone`, after it has served its branches. -/
def Action.execute (c : Conditions) : Action → ActionResult
  | .simple .drop => .acrDone
  | .simple .elim => if c.pass = true then .acrContinue else .acrDone
  | .simple .filteroam => if c.oam = true then .acrDone else .acrContinue
  | .simple .oamreceive => if c.oam = true then .acrHold else .acrContinue
  | .simple .pof =>
    if c.oam = true then .acrContinue else if c.full = true then .acrDone else .acrHold
  | .simple .ttlcheck => if c.pass = true then .acrContinue else .acrDone
  | .simple .verify => if c.pass = true then .acrContinue else .acrDone
  | .simple _ => .acrContinue
  | .delay offload => if offload = true then .acrContinue else .acrHold
  | .send _ => .acrContinue
  | .repl _ => .acrDone

/-- `SEQ_IS_OAM`, on a sequence word in host order. -/
def seqIsOam (sequence : Nat) : Bool :=
  sequence.testBit 28

end Dnt
