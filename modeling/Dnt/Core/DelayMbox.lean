import Dnt.Core.Delay

/-!
# Delay Mailboxes

The threads around the delay queues of `delay.c`. The global pointer `mbox` leads to
the mailbox that new packets go to. Inserting a packet is two steps: `getMbox` finds
or makes a mailbox, and only then the packet is pushed. In between, the inserting
thread holds a pointer that nothing else knows of. The flush signal, which ends the
program, is not sent here.

## Main definitions

* `DelaySystem`: Threads and mailboxes. A deleted mailbox does not come back.
* `delaySystemStep`: A step of one thread.
-/

namespace Dnt

open Function

structure DelaySystem (ι : Type*) where
  mbox : Option Nat
  /-- What is in a mailbox, or nothing if it does not exist. -/
  boxes : Nat → Option (List (DelayedPacket ι))
  /-- The thread that owns a mailbox. -/
  threads : Nat → DelayThread ι
  /-- The number of the next mailbox. -/
  next : Nat
  /-- The mailbox and the packet of a thread that is about to push it. -/
  inserters : Nat → Option (Nat × DelayedPacket ι)

/-- One thread takes a step. -/
inductive MboxAction (ι : Type*) where
  /-- An inserting thread has a packet and finds the mailbox. -/
  | getMbox (i : Nat) (p : DelayedPacket ι)
  /-- It pushes the packet. -/
  | push (i : Nat)
  /-- The owner of a mailbox takes its next step. -/
  | thread (m : Nat) (now later : Timespec)
  deriving DecidableEq, Repr

/-- What can be seen of a step: whether a deleted mailbox was used, the packet a
thread took from its mailbox, and the packets deleted with a mailbox. -/
structure MboxOutput (ι : Type*) where
  dangling : Bool
  taken : Option (Nat × DelayedPacket ι)
  lost : List (DelayedPacket ι)
  deriving DecidableEq, Repr

variable {ι : Type*}

def MboxOutput.silent : MboxOutput ι :=
  ⟨false, none, []⟩

/-- No packet has been delayed yet. -/
def newDelaySystem : DelaySystem ι where
  mbox := none
  boxes _ := none
  threads _ := newDelayThread
  next := 0
  inserters _ := none

def getMbox (s : DelaySystem ι) : DelaySystem ι × Nat :=
  match s.mbox with
  | some m => (s, m)
  | none =>
    ({ s with
        mbox := some s.next
        boxes := update s.boxes s.next (some [])
        threads := update s.threads s.next newDelayThread
        next := s.next + 1 }, s.next)

/-- A thread has looked into its mailbox, and took the first packet or none. -/
def afterPop (s : DelaySystem ι) (m : Nat) (box : List (DelayedPacket ι))
    (r : DelayThread ι × DelayOutput ι) : DelaySystem ι × MboxOutput ι :=
  match r.2.taken with
  | none => ({ s with threads := update s.threads m r.1 }, .silent)
  | some e =>
    ({ s with
        threads := update s.threads m r.1
        boxes := update s.boxes m (some box.tail) }, ⟨false, some (m, e.packet), []⟩)

def threadStep (s : DelaySystem ι) (m : Nat) (box : List (DelayedPacket ι))
    (now later : Timespec) : DelaySystem ι × MboxOutput ι :=
  let t := s.threads m
  let msg := box.head?.map MboxMessage.packet
  match t.phase with
  | .waiting => afterPop s m box (delayStep t (.pop msg now later))
  | .idle =>
    -- under the mutex
    ({ s with
        threads := update s.threads m (delayStep t (.check (s.mbox = some m))).1
        mbox := if s.mbox = some m then none else s.mbox }, .silent)
  | .sleeping => afterPop s m box (delayStep t (.popAgain msg now later))
  | .exiting =>
    ({ s with
        threads := update s.threads m (delayStep t .delete).1
        boxes := update s.boxes m none }, ⟨false, none, box⟩)
  | .gone | .crashed => (s, .silent)

def delaySystemStep (s : DelaySystem ι) : MboxAction ι → DelaySystem ι × MboxOutput ι
  | .getMbox i p =>
    match s.inserters i with
    | some _ => (s, .silent)
    | none =>
      let r := getMbox s
      ({ r.1 with inserters := update r.1.inserters i (some (r.2, p)) }, .silent)
  | .push i =>
    match s.inserters i with
    | none => (s, .silent)
    | some (m, p) =>
      ({ s with
          boxes := update s.boxes m ((s.boxes m).map fun box => box ++ [p])
          inserters := update s.inserters i none }, ⟨(s.boxes m).isNone, none, []⟩)
  | .thread m now later =>
    match s.boxes m with
    | none => (s, .silent)
    | some box => threadStep s m box now later

section Steps

variable (s : DelaySystem ι) (i m : Nat) (p : DelayedPacket ι)

theorem delaySystemStep_getMbox (h : s.inserters i = none) :
    delaySystemStep s (.getMbox i p) =
      ({ (getMbox s).1 with
          inserters := update (getMbox s).1.inserters i (some ((getMbox s).2, p)) },
        .silent) := by
  simp only [delaySystemStep, h]

theorem delaySystemStep_getMbox_busy {x : Nat × DelayedPacket ι} (h : s.inserters i = some x) :
    delaySystemStep s (.getMbox i p) = (s, .silent) := by
  simp only [delaySystemStep, h]

theorem delaySystemStep_push (h : s.inserters i = some (m, p)) :
    delaySystemStep s (.push i) =
      ({ s with
          boxes := update s.boxes m ((s.boxes m).map fun box => box ++ [p])
          inserters := update s.inserters i none },
        ⟨(s.boxes m).isNone, none, []⟩) := by
  simp only [delaySystemStep, h]

theorem delaySystemStep_push_none (h : s.inserters i = none) :
    delaySystemStep s (.push i) = (s, .silent) := by
  simp only [delaySystemStep, h]

theorem delaySystemStep_thread_none (now later : Timespec) (h : s.boxes m = none) :
    delaySystemStep s (.thread m now later) = (s, .silent) := by
  simp only [delaySystemStep, h]

end Steps

end Dnt
