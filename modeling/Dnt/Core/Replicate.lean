import Dnt.Core.Packet

/-!
# Contents of Replicated Packets

The loop of `action_REPL_execute` once more, with what is in the packets. Who owns them is told
in `Core.Pipeline`.

## Main definitions

* `ReplBranch`: A branch may do anything to the packet it is given, and to packets that it
  makes itself.
* `copiedPacket`: A copy has a buffer of its own, of which `copy_packet` only fills the front.
  What `malloc` left in the rest is up to the environment.
* `replLoop`, `actionReplExecute`: The loop over the branches.
-/

namespace Dnt

/-- Packets by their addresses, of which those from `next` on are free. -/
structure PacketHeap where
  packet : Nat → Packet
  next : Nat

structure ReplBranch where
  mask : Bool
  process : PacketHeap → Nat → PacketHeap
  grows : ∀ heap p, heap.next ≤ (process heap p).next
  others : ∀ heap p q, q < heap.next → q ≠ p → (process heap p).packet q = heap.packet q

def copiedPacket (p : Packet) (garbage : Nat → UInt8) : Packet :=
  { p with buf := fun i => if i < p.start + p.len then p.buf i else garbage i }

def PacketHeap.copy (heap : PacketHeap) (p : Nat) (garbage : Nat → UInt8) : PacketHeap :=
  ⟨Function.update heap.packet heap.next (copiedPacket (heap.packet p) garbage), heap.next + 1⟩

/-- The branches from number `k` on that are run, each with the packet it starts with. -/
def replLoop (isOam : Packet → Bool) (garbage : Nat → Nat → UInt8) (iterpacket : Nat) :
    PacketHeap → Option Bool → Nat → List ReplBranch → List (Nat × Packet)
  | _, _, _, [] => []
  | heap, known, k, b :: rest =>
    let known :=
      if b.mask = true then some (known.getD (isOam (heap.packet iterpacket))) else known
    if b.mask = true ∧ known = some false then
      -- if it is the last one, the packet is deleted
      replLoop isOam garbage iterpacket heap known (k + 1) rest
    else if rest.isEmpty = true then
      (k, heap.packet iterpacket) ::
        replLoop isOam garbage iterpacket (b.process heap iterpacket) known (k + 1) rest
    else
      let heap' := heap.copy iterpacket (garbage k)
      (k, heap'.packet heap.next) ::
        replLoop isOam garbage iterpacket (b.process heap' heap.next) known (k + 1) rest

def actionReplExecute (isOam : Packet → Bool) (garbage : Nat → Nat → UInt8) (heap : PacketHeap)
    (p : Fin heap.next) (list : List ReplBranch) : List (Nat × Packet) :=
  replLoop isOam garbage p heap none 0 list

end Dnt
