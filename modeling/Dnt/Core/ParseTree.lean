import Dnt.Core.Header

/-!
# Stream Classification

The parser of an interface, after `parsetree.c`. It hands every packet to the
pipeline of the first stream that fits.

## Main definitions

* `ParseTree`, `Stream`: A parser, and one of its streams.
* `identifyStream`: Trying a stream, which writes to the packet: each of its headers is
  identified before its matches are looked at.
* `parsetreeIdentify`: Classifying a packet. A failed try clears the headers, which
  assumes that the packet came without any.
-/

namespace Dnt

/-- A stream of a parser: what its packets look like, and where they go. -/
structure Stream (π : Type*) where
  headers : List HeaderDescriptor
  pipeName : String
  pipe : π
  matchPackets : Nat
  matchOctets : Nat

structure ParseTree (π : Type*) where
  streams : List (Stream π)
  nomatchPackets : Nat
  nomatchOctets : Nat

variable {π : Type*}

def newParsetree : ParseTree π :=
  ⟨[], 0, 0⟩

/-- Append a stream. Two streams with one name are refused. -/
def parsetreeAddStream (pt : ParseTree π) (headers : List HeaderDescriptor) (pipeName : String)
    (pipe : π) : Option (ParseTree π) :=
  if pt.streams.any (fun s => s.pipeName = pipeName) = true then none
  else some { pt with streams := pt.streams ++ [⟨headers, pipeName, pipe, 0, 0⟩] }

def matchHolds (m : HeaderMatch) (p : Packet) : Bool :=
  compareField m.comparator m.field m.value p ^^ m.neg

def parsetreeMatchHeader : List HeaderMatch → Packet → Bool
  | [], _ => true
  | m :: ms, p => if matchHolds m p = false then false else parsetreeMatchHeader ms p

/-- The loop over the headers of a stream, from `offset` on. The result says
whether all of them matched and where they end; after a mismatch the
packet's headers are cleared. -/
def identifyStream : List HeaderDescriptor → Nat → Packet → Bool × Nat × Packet
  | [], offset, p => (true, offset, p)
  | h :: hs, offset, p =>
    let bytelength := (protocolFromId h.id).bytelength
    let identified := packetIdentifyHeader p h.id offset bytelength
    if identified.1 = false then (false, offset, packetClearHeaders identified.2)
    else if parsetreeMatchHeader h.matchList identified.2 = false then
      (false, offset, packetClearHeaders identified.2)
    else identifyStream hs (u32 (offset + bytelength)) identified.2

/-- The loop over the streams: the pipeline that takes the packet, the streams
with their counters, and the packet. What is left of the received octets is
identified as payload; the source does not look whether that succeeds. -/
def identifyStreams : List (Stream π) → Packet → Option (Stream π) × List (Stream π) × Packet
  | [], p => (none, [], p)
  | s :: ss, p =>
    let tried := identifyStream s.headers 0 p
    if tried.1 = true then
      let offset := tried.2.1
      let p := (packetIdentifyHeader tried.2.2 .payload offset (tried.2.2.len - offset)).2
      let s := { s with
        matchPackets := s.matchPackets + 1
        matchOctets := s.matchOctets + packetLength p }
      (some s, s :: ss, p)
    else
      let rest := identifyStreams ss tried.2.2
      (rest.1, s :: rest.2.1, rest.2.2)

/-- Classify one packet. The output is the stream whose pipeline runs on the
packet, and the packet it runs on. -/
def parsetreeIdentify (pt : ParseTree π) (p : Packet) :
    ParseTree π × Option (Stream π) × Packet :=
  let found := identifyStreams pt.streams p
  match found.1 with
  | some s => ({ pt with streams := found.2.1 }, some s, found.2.2)
  | none =>
    ({ streams := found.2.1
       nomatchPackets := pt.nomatchPackets + 1
       nomatchOctets := pt.nomatchOctets + found.2.2.len }, none, found.2.2)

end Dnt
