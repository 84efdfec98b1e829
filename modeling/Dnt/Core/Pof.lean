import Mathlib.Data.List.Basic
import Dnt.Core.Action

/-!
# Packet Ordering Function

The conditional delay buffer of `pof.c`. Packets that arrive too early wait in a
list sorted by sequence number, until the packets before them have been forwarded or
their time is up.

## Main definitions

* `Pof`: The buffer, with an eventfd. Reading it returns the sum of the numbers that were
  added, and clears it.
* `pofInsert`: A receiver inserts a packet, and tells the worker by the eventfd.
* `pofStep`: An arrival, or a wakeup of the worker. It sleeps until the eventfd is readable
  or its next deadline has come, forwards what it can, and looks for the next deadline.
-/

namespace Dnt

def pofInOrderPkt : Nat := 1

def pofOutOfOrderPkt : Nat := 2

def pofTimeout : Nat := 4

/-- A buffered packet. The iterator is what is resumed when the packet may go
on; `forwardTime` is how long the buffer can hold it. -/
structure PofElem (ι : Type*) where
  addr : Nat
  pi : ι
  seq : Nat
  forwardTime : Nat
  deriving DecidableEq, Repr

structure Pof (ι : Type*) where
  maxDelay : Nat
  takeAnyTime : Nat
  queueMaxLen : Nat
  queueLen : Nat
  lastSent : Nat
  takeAny : Bool
  evfd : Nat
  queue : List (PofElem ι)
  nextToForward : Option (PofElem ι)
  /-- The address of the next element. -/
  nextAddr : Nat
  /-- When the worker stops waiting for the eventfd. -/
  wakeup : Nat
  /-- The latest clock reading. -/
  clock : Nat
  deriving DecidableEq, Repr

variable {ι : Type*}

def newPof (maxDelay takeAnyTime queueMaxLen : Nat) : Pof ι where
  maxDelay := maxDelay
  takeAnyTime := takeAnyTime
  queueMaxLen := queueMaxLen
  queueLen := 0
  lastSent := 0
  takeAny := true
  evfd := 0
  queue := []
  nextToForward := none
  nextAddr := 0
  wakeup := 0
  clock := 0

variable (pof : Pof ι)

def newPofElem (pi : ι) (sequence now : Nat) : PofElem ι :=
  ⟨pof.nextAddr, pi, sequence % 65536, now + pof.maxDelay⟩

/-- Link an element into the list, in front of the first one that does not come
before it. -/
def pofLink (pe : PofElem ι) : List (PofElem ι) → List (PofElem ι)
  | [] => [pe]
  | iter :: rest => if iter.seq < pe.seq then iter :: pofLink pe rest else pe :: iter :: rest

/-- A packet arrives. The results are what the action returns, and the new
element if the packet is kept. -/
def pofInsert (pi : ι) (sequence now : Nat) : Pof ι × ActionResult × Option (PofElem ι) :=
  -- maintenance packets are not delayed
  if seqIsOam sequence = true then (pof, .acrContinue, none)
  else if pof.queueLen ≥ pof.queueMaxLen then (pof, .acrDone, none)
  else
    let pe := newPofElem pof pi sequence now
    let event :=
      if pe.seq ≤ pof.lastSent + 1 ∨ pof.takeAny = true then pofInOrderPkt else pofOutOfOrderPkt
    ({ pof with
        queue := pofLink pe pof.queue
        queueLen := pof.queueLen + 1
        evfd := pof.evfd + event
        nextAddr := pof.nextAddr + 1 }, .acrHold, some pe)

def pofPopItem (pe : PofElem ι) : Pof ι :=
  if pof.queue.isEmpty = true then pof
  else if pof.queueLen = 0 then pof
  else
    { pof with
      queue := pof.queue.eraseP fun iter => iter.addr = pe.addr
      queueLen := pof.queueLen - 1 }

/-- The loop of `pof_reset`, for at most `n` elements. -/
def popHeads : Nat → Pof ι → Pof ι
  | 0, pof => pof
  | n + 1, pof =>
    match pof.queue with
    | [] => pof
    | pe :: _ => popHeads n (pofPopItem pof pe)

def pofReset : Pof ι :=
  { popHeads pof.queue.length pof with takeAny := true }

/-- The loop of `get_next_deadline`: the last deadline that differs from the one
in front of it, and its element. -/
def scanDeadlines : List (PofElem ι) → Nat → Option (PofElem ι) → Nat × Option (PofElem ι)
  | [], ret, next => (ret, next)
  | iter :: rest, ret, next =>
    if iter.forwardTime ≠ ret then scanDeadlines rest iter.forwardTime (some iter)
    else scanDeadlines rest ret next

def getNextDeadline : Pof ι × Option Nat :=
  if pof.queueLen = 0 then ({ pof with nextToForward := none }, none)
  else
    match pof.queue with
    | [] => ({ pof with nextToForward := none }, none)
    | pe :: _ =>
      let scan := scanDeadlines pof.queue pe.forwardTime none
      ({ pof with nextToForward := scan.2 }, some scan.1)

/-- Forward a packet. Its iterator is resumed. -/
def pofForward (pe : PofElem ι) : Pof ι :=
  if pe.seq > pof.lastSent then { pof with lastSent := pe.seq } else pof

/-- A packet that is forwarded, and the object at that moment, with the packet
still in the buffer. -/
structure Forwarding (ι : Type*) where
  pof : Pof ι
  pe : PofElem ι
  deriving DecidableEq, Repr

/-- The forwarding loop, for at most `n` rounds. It starts with `pkt`; `timeout`
is that bit of the event. Every round takes an element out of the buffer, so
`queue_len` rounds are enough. -/
def tryForwardLoop : Nat → Pof ι → Option (PofElem ι) → Bool → Pof ι × List (Forwarding ι)
  | 0, pof, _, _ => (pof, [])
  | n + 1, pof, pkt, timeout =>
    if pof.queueLen = 0 then (pof, [])
    else
      match pkt with
      | none => (pof, [])
      | some pe =>
        if pe.seq = pof.lastSent + 1 ∨ timeout = true then
          -- a timeout is good for one packet, `event` is cleared with it
          let next := pofPopItem (pofForward { pof with takeAny := false } pe) pe
          let rest := tryForwardLoop n next next.queue.head? false
          (rest.1, ⟨pof, pe⟩ :: rest.2)
        else if pe.seq < pof.lastSent + 1 then
          -- a late packet does not end the time in which any number is taken
          let next := pofPopItem (pofForward pof pe) pe
          let rest := tryForwardLoop n next next.queue.head? timeout
          (rest.1, ⟨pof, pe⟩ :: rest.2)
        else (pof, [])

/-- The packet the loop starts with. On a timeout it is the one the worker was
waiting for. -/
def pktToSend (event : Nat) : Option (PofElem ι) :=
  if event &&& pofTimeout ≠ 0 ∧ pof.takeAny = false ∧ pof.nextToForward.isSome = true then
    pof.nextToForward
  else pof.queue.head?

def pofTryForward (event : Nat) : Pof ι × List (Forwarding ι) :=
  tryForwardLoop pof.queueLen pof (pktToSend pof event) (decide (event &&& pofTimeout ≠ 0))

/-- The end of a round of the worker: choose a deadline, and how long to
wait. -/
def pofWait (now : Nat) : Pof ι :=
  let next := getNextDeadline pof
  let timeout :=
    match next.2 with
    -- a deadline that has passed already is like none
    | some deadline => if deadline > now then deadline - now else pof.takeAnyTime
    | none => pof.takeAnyTime
  { next.1 with wakeup := now + timeout, clock := now }

def pofInit (now : Nat) : Pof ι :=
  pofWait (pofReset pof) now

def pofEvent : Pof ι × List (Forwarding ι) :=
  let event := pof.evfd
  let pof := { pof with evfd := 0 }
  if event &&& pofInOrderPkt ≠ 0 then pofTryForward pof event else (pof, [])

/-- The worker has waited long enough. -/
def pofExpire : Pof ι × List (Forwarding ι) :=
  if pof.queueLen ≠ 0 then pofTryForward pof pofTimeout else (pofReset pof, [])

/-- What can happen to the object, with the reading of the clock: a packet
arrives, or the worker wakes up for one of its two reasons. -/
inductive PofInput (ι : Type*) where
  | arrive (pi : ι) (sequence now : Nat)
  | event (now : Nat)
  | timeout (now : Nat)
  deriving DecidableEq, Repr

structure PofOutput (ι : Type*) where
  result : Option ActionResult
  accepted : Option (PofElem ι)
  forwarded : List (Forwarding ι)
  deriving DecidableEq, Repr

def pofStep : PofInput ι → Pof ι × PofOutput ι
  | .arrive pi sequence now =>
    let inserted := pofInsert pof pi sequence now
    ({ inserted.1 with clock := now }, ⟨some inserted.2.1, inserted.2.2, []⟩)
  | .event now => (pofWait (pofEvent pof).1 now, ⟨none, none, (pofEvent pof).2⟩)
  | .timeout now => (pofWait (pofExpire pof).1 now, ⟨none, none, (pofExpire pof).2⟩)

/-- When an input can occur. Clocks do not run backwards, the eventfd wakes the
worker when something was added to it, and `ppoll` does not give up early. -/
def PofPossible : PofInput ι → Prop
  | .arrive _ _ now => pof.clock ≤ now
  | .event now => pof.clock ≤ now ∧ 0 < pof.evfd
  | .timeout now => pof.clock ≤ now ∧ pof.wakeup ≤ now

instance (pof : Pof ι) (input : PofInput ι) : Decidable (PofPossible pof input) := by
  cases input <;> unfold PofPossible <;> infer_instance

end Dnt
