import Mathlib.Logic.Function.Basic

/-!
# Lifetimes of Interfaces and Pipelines

How interfaces and pipelines keep each other alive, after `interface.c`,
`pipeline.c`, `parsetree.c` and `state.c`, in one thread. The parse tree of an interface
has a reference to each pipeline that is attached to it, so deleting it may delete
pipelines, and those the interfaces they send on.

## Main definitions

* `Lifetimes`: Interfaces and pipelines with their counts. What was freed is kept as it
  was, and can still be found by whoever goes on to use it.
* `pipelineUnref`: Giving up a pipeline, and all that follows from it.
* `lifeStep`: What the program does with interfaces and pipelines.
-/

namespace Dnt

/-- An action, as far as interfaces are concerned. A replicate action has its
branches. -/
inductive PipelineAction where
  | send (iface : Nat)
  | repl (pipes : List (List PipelineAction))
  | other
  deriving Repr

structure PipelineObj where
  name : String
  referenceCount : Int
  actions : List PipelineAction
  deriving Repr

structure InterfaceObj where
  referenceCount : Int
  senderCount : Int
  /-- The pipelines of the streams, in their order, if there is a parse tree. -/
  parsetree : Option (List Nat)
  deriving DecidableEq, Repr

/-- Parse trees that come and go, and interfaces that go. -/
inductive LifeMark where
  | newParsetree (iface : Nat)
  | deleteParsetree (iface : Nat)
  | deleteInterface (iface : Nat)
  deriving DecidableEq, Repr

structure Lifetimes where
  ifaces : Nat → InterfaceObj
  pipes : Nat → PipelineObj
  /-- The first addresses that were never used. -/
  ifaceCount : Nat
  pipeCount : Nat
  /-- The addresses in `state_interfaces`. -/
  stateInterfaces : List Nat
  /-- The pipelines that whoever compiled them has a reference to. -/
  pipeCache : List Nat
  log : List LifeMark

variable (w : Lifetimes)

namespace Lifetimes

def setIface (i : Nat) (iface : InterfaceObj) : Lifetimes :=
  { w with ifaces := Function.update w.ifaces i iface }

def setPipe (p : Nat) (pipe : PipelineObj) : Lifetimes :=
  { w with pipes := Function.update w.pipes p pipe }

def mark (m : LifeMark) : Lifetimes :=
  { w with log := w.log ++ [m] }

end Lifetimes

/-! ### Raising the counters -/

def ifaceAddSender (i : Nat) : Lifetimes :=
  w.setIface i { w.ifaces i with senderCount := (w.ifaces i).senderCount + 1 }

mutual

def pipelineRefSendInterfaces : List PipelineAction → Lifetimes → Lifetimes
  | [], w => w
  | a :: rest, w => pipelineRefSendInterfaces rest (refAction a w)

/-- One round of its loop. -/
def refAction : PipelineAction → Lifetimes → Lifetimes
  | .send i, w => ifaceAddSender w i
  | .repl pipes, w => refBranches pipes w
  | .other, w => w

/-- The loop over the branches of a replicate action. -/
def refBranches : List (List PipelineAction) → Lifetimes → Lifetimes
  | [], w => w
  | pipe :: rest, w => refBranches rest (pipelineRefSendInterfaces pipe w)

end

def pipelineRef (p : Nat) : Lifetimes :=
  w.setPipe p { w.pipes p with referenceCount := (w.pipes p).referenceCount + 1 }

/-! ### Lowering the counters

Deleting a pipeline may delete an interface, and the other way round. The functions
in between have the function that releases a pipeline as a parameter. -/

/-- `delete_parsetree`, of the parse tree at `iface->parsetree_`. -/
def deleteParsetree (unref : Lifetimes → Nat → Lifetimes) (w : Lifetimes) (i : Nat) : Lifetimes :=
  match (w.ifaces i).parsetree with
  | none => w
  | some streams => (streams.foldl unref w).mark (.deleteParsetree i)

def deleteInterface (unref : Lifetimes → Nat → Lifetimes) (w : Lifetimes) (i : Nat) : Lifetimes :=
  (deleteParsetree unref w i).mark (.deleteInterface i)

def ifaceDelSender (unref : Lifetimes → Nat → Lifetimes) (w : Lifetimes) (i : Nat) : Lifetimes :=
  let sendercount := (w.ifaces i).senderCount - 1
  let w := w.setIface i { w.ifaces i with senderCount := sendercount }
  if sendercount = 0 then
    if (w.ifaces i).referenceCount > 0 then w else deleteInterface unref w i
  else w

/-- `unref_send_interfaces`, which does not go into the branches. -/
def unrefSendInterfaces (del : Lifetimes → Nat → Lifetimes) (actions : List PipelineAction)
    (w : Lifetimes) : Lifetimes :=
  actions.foldl (fun w a => match a with
    | .send i => del w i
    | _ => w) w

mutual

/-- The loop of `pipeline_unref` over the actions. -/
def deleteActions (del : Lifetimes → Nat → Lifetimes) :
    List PipelineAction → Lifetimes → Lifetimes
  | [], w => w
  | a :: rest, w => deleteActions del rest (deleteAction del a w)

def deleteAction (del : Lifetimes → Nat → Lifetimes) : PipelineAction → Lifetimes → Lifetimes
  | .send _, w => w
  | .repl pipes, w => unrefBranches del pipes w
  | .other, w => w

/-- `action_REPL_del`, which releases the only reference to each branch. -/
def unrefBranches (del : Lifetimes → Nat → Lifetimes) :
    List (List PipelineAction) → Lifetimes → Lifetimes
  | [], w => w
  | pipe :: rest, w =>
    unrefBranches del rest (deleteActions del pipe (unrefSendInterfaces del pipe w))

end

/-- `pipeline_unref`. Every pipeline that is deleted while another one is uses up some
fuel. -/
def pipelineUnref : Nat → Lifetimes → Nat → Lifetimes
  | 0, w, _ => w
  | fuel + 1, w, p =>
    let refcount := (w.pipes p).referenceCount - 1
    let w := w.setPipe p { w.pipes p with referenceCount := refcount }
    if refcount = 0 then
      let del := ifaceDelSender (pipelineUnref fuel)
      deleteActions del (w.pipes p).actions (unrefSendInterfaces del (w.pipes p).actions w)
    else w

/-- The fuel is one more than there are pipelines, since none is deleted twice. -/
def Lifetimes.unref : Lifetimes → Nat → Lifetimes :=
  pipelineUnref (w.pipeCount + 1)

def ifaceUnref (i : Nat) : Lifetimes :=
  let refcount := (w.ifaces i).referenceCount - 1
  let w := w.setIface i { w.ifaces i with referenceCount := refcount }
  if refcount = 0 then
    if (w.ifaces i).senderCount > 0 then
      let w := deleteParsetree w.unref w i
      w.setIface i { w.ifaces i with parsetree := none }
    else deleteInterface w.unref w i
  else w

/-! ### Attaching -/

/-- `iface_add_stream`, and whether it succeeds. -/
def ifaceAddStream (i p : Nat) : Bool × Lifetimes :=
  let w := if (w.ifaces i).parsetree = none then
      (w.setIface i { w.ifaces i with parsetree := some [] }).mark (.newParsetree i)
    else w
  let streams := ((w.ifaces i).parsetree).getD []
  -- a stream of this name is there already
  if streams.any (fun q => (w.pipes q).name == (w.pipes p).name) then (false, w)
  else
    let w := pipelineRef w p
    let w := w.setIface i { w.ifaces i with parsetree := some (streams ++ [p]) }
    (true, pipelineRefSendInterfaces (w.pipes p).actions w)

/-! ### Histories -/

inductive LifeEvent where
  /-- A new interface is put into the table. -/
  | addInterface
  /-- `assemble_actions` returns a pipeline. -/
  | compile (name : String) (actions : List PipelineAction)
  /-- A pipeline is attached to an interface of the table. -/
  | attach (iface pipe : Nat)
  /-- Whoever compiled a pipeline releases it. -/
  | drop (pipe : Nat)
  /-- An interface is removed from the table. -/
  | remove (iface : Nat)
  deriving Repr

def lifeStep : LifeEvent → Lifetimes × Unit
  | .addInterface =>
    ({ w.setIface w.ifaceCount ⟨1, 0, none⟩ with
        ifaceCount := w.ifaceCount + 1
        stateInterfaces := w.ifaceCount :: w.stateInterfaces }, ())
  | .compile name actions =>
    ({ w.setPipe w.pipeCount ⟨name, 1, actions⟩ with
        pipeCount := w.pipeCount + 1
        pipeCache := w.pipeCount :: w.pipeCache }, ())
  | .attach i p =>
    if i ∈ w.stateInterfaces ∧ p ∈ w.pipeCache then ((ifaceAddStream w i p).2, ()) else (w, ())
  | .drop p =>
    if p ∈ w.pipeCache then (w.unref { w with pipeCache := w.pipeCache.erase p } p, ())
    else (w, ())
  | .remove i =>
    if i ∈ w.stateInterfaces then
      (ifaceUnref { w with stateInterfaces := w.stateInterfaces.erase i } i, ())
    else (w, ())

def noLifetimes : Lifetimes :=
  ⟨fun _ => ⟨0, 0, none⟩, fun _ => ⟨"", 0, []⟩, 0, 0, [], [], []⟩

end Dnt
