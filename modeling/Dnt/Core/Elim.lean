import Dnt.Core.Action
import Dnt.Core.OamMaintenance
import Dnt.Core.SeqRecov

/-!
# Maintenance Packets in Actions

How actions tell packets of the maintenance layer from data. `packet_is_oam` looks
for the mark in the headers. An eliminate action does so for TSN only, and otherwise
looks at the sequence word, which something before it has set.

## Main definitions

* `ElimState`: The recovery object of an eliminate action for data, and one for every
  maintenance session, made when its first packet comes.
* `elimStep`, `rcvyStep`: What happens to them, with the packets and without.
-/

namespace Dnt

/-! ## Marks -/

/-- What a constructor finds out about a stack on Ethernet. -/
structure StackIndices where
  rtagIndex : Nat
  lastIndex : Nat
  ethertypeOffset : Nat
  deriving DecidableEq, Repr

/-- A loop over a stack from its second entry on. Stacks end with a zero, which is
the number of the payload. -/
def stackIndexOf (protostack : List ProtocolID) (id : ProtocolID) : Option Nat :=
  (((protostack.drop 1).takeWhile (· ≠ .payload)).findIdx? (· = id)).map (· + 1)

/-- `ANALYZE_PROTOSTACK`. The loop that looks for the payload ends at it, so it
does not find it. -/
def analyzeProtostack (protostack : List ProtocolID) : StackIndices :=
  if protostack.head? = some .eth then
    match stackIndexOf protostack .rtag with
    | some i => ⟨i, 0, 0⟩
    | none =>
      match stackIndexOf protostack .payload with
      | some i =>
        let ethertype := protocolGetFieldByType (protostack.getD (i - 1) .payload) .nextHeader
        ⟨0, i - 1, (ethertype.map ProtocolField.bitoffset).getD 0 / 8⟩
      | none => ⟨0, 0, 0⟩
  else ⟨0, 0, 0⟩

/-- The first nibble of a maintenance packet. -/
def oamNibble (a : UInt8) : Bool :=
  a &&& 0xf0 == 0x10

def packetIsOam (p : Packet) (protostack : Option (List ProtocolID)) (indices : StackIndices) :
    Bool :=
  match protostack with
  | none => false
  | some stack =>
    match stack.head? with
    | some .eth =>
      if indices.rtagIndex ≠ 0 then oamNibble (p.buf (headerStart p indices.rtagIndex))
      else
        let ethertype := headerStart p indices.lastIndex + indices.ethertypeOffset
        p.buf ethertype == 0x89 && p.buf (ethertype + 1) == 0x02
    | some .mpls => oamNibble (p.buf (headerStart p 1))
    | some .ipv6 => p.buf (headerStart p 0 + 36) &&& 1 == 1
    | _ => false

/-! ## The sequence word -/

def wordOctets (sequence : Nat) : List UInt8 :=
  [octet (sequence >>> 24), octet (sequence >>> 16), octet (sequence >>> 8), octet sequence]

def actionReadseqExecute (field : HeaderField) (p : OamPacket) : OamPacket :=
  let src := headerStart p.packet field.headerIdx + field.bitoffset / 8
  let len := field.bitcount / 8
  let octets :=
    if (p.packet.headers[field.headerIdx]?.map PacketHeader.type) = some .ipv6 then
      -- the upper four bits belong to the address
      [p.packet.buf src &&& 0x0f, p.packet.buf (src + 1), p.packet.buf (src + 2),
       p.packet.buf (src + 3)]
    else Memory.load p.packet.buf src len ++ (wordOctets p.sequence).drop len
  { p with sequence := sequenceOctets octets }

/-! ## The eliminate action -/

structure ElimData where
  protostack : Option (List ProtocolID)
  indices : StackIndices
  deriving DecidableEq, Repr

def createActionElim (protostack : Option (List ProtocolID)) : ElimData :=
  ⟨protostack, (protostack.map analyzeProtostack).getD ⟨0, 0, 0⟩⟩

inductive ElimRoute where
  /-- The recovery of the data. -/
  | processPacket
  /-- The recovery of a session. -/
  | oamRecovery (session : String) (seq : UInt8)
  /-- A maintenance packet that cannot be read. -/
  | notContinuous
  deriving DecidableEq, Repr

def hexOctet (a : UInt8) : String :=
  if a < 16 then "0" ++ String.ofList (Nat.toDigits 16 a.toNat)
  else String.ofList (Nat.toDigits 16 a.toNat)

def etherNtop (buf : Nat → UInt8) (src : Nat) : String :=
  String.intercalate ":" ((Memory.load buf src 6).map hexOctet)

def sessionName (node : String) (session level : Nat) : String :=
  node ++ ":" ++ toString session ++ ":" ++ toString level

def tsnSession (p : Packet) (rtagIndex : Nat) : String × UInt8 :=
  let rtag := headerStart p rtagIndex
  let level := (p.buf (headerStart p (rtagIndex + 1))).toNat >>> 5
  (sessionName (etherNtop p.buf (headerStart p 0 + 6)) ((p.buf (rtag + 3)).toNat &&& 15) level,
   p.buf (rtag + 1))

def pwSession (p : Packet) : String × UInt8 :=
  let header (i : Nat) : Nat := (p.buf (headerStart p 1 + i)).toNat
  let nodeid := header 4 <<< 12 + header 5 <<< 4 + header 6 >>> 4
  (sessionName (toString nodeid) (header 7 &&& 15) (header 6 >>> 1 &&& 7),
   p.buf (headerStart p 1 + 1))

def srv6Session (p : Packet) : String × UInt8 :=
  let header (i : Nat) : Nat := (p.buf (headerStart p 1 + i)).toNat
  let nodeid := header 23 <<< 8 ||| header 22
  (sessionName (toString nodeid) (header 45 &&& 15) (header 45 >>> 4 &&& 7),
   p.buf (headerStart p 1 + 47))

def routeFound (p : Packet) (oam : Bool) (session : String × UInt8) : ElimRoute :=
  if oam = false then .processPacket
  else if packetIsLinear p = false then .notContinuous
  else .oamRecovery session.1 session.2

def elimRoute (ed : ElimData) (p : OamPacket) : ElimRoute :=
  match ed.protostack with
  | none => .processPacket
  | some stack =>
    match stack.head? with
    | some .eth =>
      -- without an R-TAG nothing is looked at
      if ed.indices.rtagIndex ≠ 0 then
        routeFound p.packet
          (oamNibble (p.packet.buf (headerStart p.packet ed.indices.rtagIndex)))
          (tsnSession p.packet ed.indices.rtagIndex)
      else .processPacket
    | some .mpls => routeFound p.packet (seqIsOam p.sequence) (pwSession p.packet)
    -- the bit is among the flags of an SRv6 sequence number
    | some .ipv6 => routeFound p.packet (p.sequence.testBit 24) (srv6Session p.packet)
    | _ => .processPacket

def oamRcvyResetMs : Nat := 5000

/-- The recovery of a session. A new one needs a thread, which may not start. -/
def getOamRcvy (recs : HashMap SequenceRecovery) (session : String) (launched : Bool) :
    Option SequenceRecovery :=
  match hashmapFind recs session with
  | some rec => some rec
  | none =>
    if launched = true then some (newSeqRec .rcvyMatch false false 0 oamRcvyResetMs) else none

/-- `oam_recovery`. A packet without a recovery passes. -/
def oamRecovery (recs : HashMap SequenceRecovery) (session : String) (seq : UInt8)
    (launched : Bool) : Bool × HashMap SequenceRecovery :=
  match getOamRcvy recs session launched with
  | none => (true, recs)
  | some rec =>
    let recovered := matchSeqRecovery rec seq.toNat
    (recovered.1, hashmapInsert recs session recovered.2)

structure ElimState where
  rcvy : SequenceRecovery
  oamSeqRecoveries : HashMap SequenceRecovery

def passResult (pass : Bool) : ActionResult :=
  if pass = true then .acrContinue else .acrDone

/-- `action_ELIM_execute`. The last result is the decision of the data recovery, if
it was asked. -/
def elimExecute (ed : ElimData) (s : ElimState) (p : OamPacket) (launched : Bool) :
    ElimState × ActionResult × Option Bool :=
  match elimRoute ed p with
  | .notContinuous => (s, .acrContinue, none)
  | .oamRecovery session seq =>
    let recovered := oamRecovery s.oamSeqRecoveries session seq launched
    ({ s with oamSeqRecoveries := recovered.2 }, passResult recovered.1, none)
  | .processPacket =>
    let recovered := seqRecovery s.rcvy p.sequence
    ({ s with rcvy := recovered.2 }, passResult recovered.1, some recovered.1)

/-- What can happen to the recovery objects: a packet comes, the timer of the data
recovery is over, or the one of a session. -/
inductive ElimEvent where
  | packet (p : OamPacket) (launched : Bool)
  | reset
  | expire (session : String)

def elimStep (ed : ElimData) (s : ElimState) : ElimEvent → ElimState × Option Bool
  | .packet p launched => ((elimExecute ed s p launched).1, (elimExecute ed s p launched).2.2)
  | .reset => ({ s with rcvy := seqRecoveryReset s.rcvy }, none)
  | .expire session =>
    ({ s with oamSeqRecoveries := hashmapRemove s.oamSeqRecoveries session }, none)

/-- The same without the packets around it: what `oam_recovery`, `process_packet` and
the timers are called with. -/
inductive RcvyEvent where
  | oam (session : String) (seq : UInt8) (launched : Bool)
  | data (sequence : Nat)
  | reset
  | expire (session : String)
  deriving DecidableEq, Repr

/-- The result is what is decided about a packet. -/
def rcvyStep (s : ElimState) : RcvyEvent → ElimState × Option Bool
  | .oam session seq launched =>
    let recovered := oamRecovery s.oamSeqRecoveries session seq launched
    ({ s with oamSeqRecoveries := recovered.2 }, some recovered.1)
  | .data sequence =>
    let recovered := seqRecovery s.rcvy sequence
    ({ s with rcvy := recovered.2 }, some recovered.1)
  | .reset => ({ s with rcvy := seqRecoveryReset s.rcvy }, none)
  | .expire session =>
    ({ s with oamSeqRecoveries := hashmapRemove s.oamSeqRecoveries session }, none)

end Dnt
