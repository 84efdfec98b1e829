import Dnt.Core.OamMaintenance

/-!
# Definitions of Maintenance Points

`oam_new_maintenance_point` with the table of the points. A point is created by
the first call with its name, and is shared by those that come later: the receive
and the inject action of a point have one call each, and so has every pipeline.

## Main definitions

* `MpRegistry`: The table.
* `MpCall`, `MpRegistry.oamNewMaintenancePoint`: A call, and what it does.
-/

namespace Dnt

/-- What has to be the same in all calls for one point. Objects are compared as
pointers. -/
structure MpDefinition where
  streamName : String
  type : OamMpType
  level : Nat
  object : Option Nat
  deriving DecidableEq, Repr

/-- The arguments of a call. `protocol` is the first one of the stack, and `addr`
stands for the addresses, which `set_mp_address` adds to those of the point. -/
structure MpCall where
  mpName : String
  definition : MpDefinition
  protocol : ProtocolID
  pipe : Option (Nat × Nat)
  addr : Option Nat

/-- A point with its injection points, at most one for a pipeline, and the
addresses it was given. -/
structure MpPoint where
  definition : MpDefinition
  encap : OamMpEncap
  referenceCount : Nat
  injections : List (Nat × Nat)
  addresses : List (Option Nat)

/-- What the error messages are about. -/
inductive MpError where
  | level
  | type
  | object
  | stream
  | protocol
  deriving DecidableEq, Repr

def MpRegistry : Type := String → Option MpPoint

def mpEncap : ProtocolID → Option OamMpEncap
  | .eth => some .tsn
  | .mpls => some .pw
  | .ipv6 => some .srv6
  | _ => none

def addInjection (injections : List (Nat × Nat)) : Option (Nat × Nat) → List (Nat × Nat)
  | none => injections
  | some (pipe, idx) =>
    if injections.any (fun point => point.1 == pipe) = true then injections
    else (pipe, idx) :: injections

/-- The table after a call, and the point that is returned or the reason why there
is none. The level and the type are only looked at if the object is another one. -/
def MpRegistry.oamNewMaintenancePoint (t : MpRegistry) (c : MpCall) :
    MpRegistry × Except MpError String :=
  match t c.mpName with
  | some mp =>
    if mp.definition.object ≠ c.definition.object then
      if c.definition.level ≠ mp.definition.level then (t, .error .level)
      else if c.definition.type ≠ mp.definition.type then (t, .error .type)
      else (t, .error .object)
    else if c.definition.streamName ≠ mp.definition.streamName then (t, .error .stream)
    else
      (Function.update t c.mpName (some
        { mp with
          referenceCount := mp.referenceCount + 1
          injections := addInjection mp.injections c.pipe
          addresses := c.addr :: mp.addresses }), .ok c.mpName)
  | none =>
    match mpEncap c.protocol with
    | none => (t, .error .protocol)
    | some encap =>
      (Function.update t c.mpName
        (some ⟨c.definition, encap, 1, addInjection [] c.pipe, [c.addr]⟩), .ok c.mpName)

end Dnt
