import Mathlib.Algebra.Order.Ring.Int

/-!
# Protocols

The protocol table of `protocol.c`, translated entry by entry.

## Main definitions

* `ProtocolID`, `protocolFromId`: Which headers exist, how long they are, where their
  fields lie, and how one header names the next.
* `protocolIdFromType`: The protocol with a name. It answers with the payload for an unknown
  name, and it is up to the caller to ask `protocolTypeValid` first.

## Theorems

* `bytelength_le`: No header is longer than 40 octets.
-/

namespace Dnt

inductive ProtocolFieldType where
  | unknown
  | number
  | macAddress
  | ipv4Address
  | ipv6Address
  | tsnSeq
  | srv6Seq
  | tsnTstamp
  | ttl
  | checksum
  | nextHeader
  deriving DecidableEq, Repr

inductive ProtocolID where
  | payload
  | eth
  | svlan
  | cvlan
  | rtag
  | ttag
  | mpls
  | dcw
  | tcw
  | ipv4
  | ipv6
  | arp
  | udp
  | tcp
  | oam
  | oamrtag
  | cfm
  | icmpv4
  | icmpv6
  deriving DecidableEq, Repr

structure ProtocolField where
  name : String
  bitoffset : Nat
  bitcount : Nat
  type : ProtocolFieldType
  deriving DecidableEq, Repr

def idFromEthertype (nexthdr : Nat) : Option ProtocolID :=
  match nexthdr with
  | 0x8100 => some .cvlan
  | 0x88a8 => some .svlan
  | 0xf1c1 => some .rtag
  | 0x8847 => some .mpls
  | 0x0800 => some .ipv4
  | 0x86dd => some .ipv6
  | 0x0806 => some .arp
  | 0x8902 => some .cfm
  | _ => none

def ethertypeFromId : ProtocolID → Option Nat
  | .svlan => some 0x88a8
  | .cvlan => some 0x8100
  | .rtag | .ttag | .oamrtag => some 0xf1c1
  | .mpls => some 0x8847
  | .ipv4 => some 0x0800
  | .ipv6 => some 0x86dd
  | .arp => some 0x0806
  | .cfm => some 0x8902
  | _ => none

def idFromIpproto (proto : Nat) : Option ProtocolID :=
  match proto with
  | 4 => some .ipv4
  | 41 => some .ipv6
  | 17 => some .udp
  | 6 => some .tcp
  | 137 => some .mpls
  | 143 => some .eth
  | 1 => some .icmpv4
  | 58 => some .icmpv6
  | _ => none

def ipprotoFromId : ProtocolID → Option Nat
  | .eth => some 143
  | .ipv4 => some 4
  | .ipv6 => some 41
  | .udp => some 17
  | .tcp => some 6
  | .mpls => some 137
  | .icmpv4 => some 1
  | .icmpv6 => some 58
  | _ => none

def payloadFields : List ProtocolField := []

def ethFields : List ProtocolField :=
  [⟨"dmac", 0, 48, .macAddress⟩, ⟨"smac", 48, 48, .macAddress⟩,
   ⟨"ethertype", 96, 16, .nextHeader⟩]

def vlanFields : List ProtocolField :=
  [⟨"pcp", 0, 3, .number⟩, ⟨"dei", 3, 1, .number⟩, ⟨"vid", 4, 12, .number⟩,
   ⟨"tpid", 16, 16, .nextHeader⟩, ⟨"vlan", 0, 16, .number⟩]

def rtagFields : List ProtocolField :=
  [⟨"rt_flag", 4, 1, .number⟩, ⟨"reset_flag", 5, 1, .number⟩, ⟨"initseq_flag", 6, 1, .number⟩,
   ⟨"resv", 0, 16, .number⟩, ⟨"seqnum", 16, 16, .number⟩, ⟨"tpid", 32, 16, .nextHeader⟩,
   ⟨"seq", 0, 32, .tsnSeq⟩]

def ttagFields : List ProtocolField :=
  [⟨"rt_flag", 4, 1, .number⟩, ⟨"reset_flag", 5, 1, .number⟩, ⟨"initseq_flag", 6, 1, .number⟩,
   ⟨"resv", 0, 16, .number⟩, ⟨"tstampnum", 11, 21, .number⟩, ⟨"tpid", 32, 16, .nextHeader⟩,
   ⟨"tstamp", 0, 32, .tsnTstamp⟩]

def mplsFields : List ProtocolField :=
  [⟨"label", 0, 20, .number⟩, ⟨"class", 20, 3, .number⟩, ⟨"bos", 23, 1, .number⟩,
   ⟨"ttl", 24, 8, .ttl⟩]

def dcwFields : List ProtocolField :=
  [⟨"rt_flag", 4, 1, .number⟩, ⟨"reset_flag", 5, 1, .number⟩, ⟨"initseq_flag", 6, 1, .number⟩,
   ⟨"resv", 0, 16, .number⟩, ⟨"seqnum", 16, 16, .number⟩, ⟨"seq", 0, 32, .tsnSeq⟩]

def tcwFields : List ProtocolField :=
  [⟨"rt_flag", 4, 1, .number⟩, ⟨"reset_flag", 5, 1, .number⟩, ⟨"initseq_flag", 6, 1, .number⟩,
   ⟨"resv", 0, 16, .number⟩, ⟨"tstampnum", 11, 21, .number⟩, ⟨"tstamp", 0, 32, .tsnTstamp⟩]

def ipv4Fields : List ProtocolField :=
  [⟨"version", 0, 4, .number⟩, ⟨"ihl", 4, 4, .number⟩, ⟨"verihl", 0, 8, .number⟩,
   ⟨"dscp", 8, 6, .number⟩, ⟨"ecn", 14, 2, .number⟩, ⟨"tos", 8, 8, .number⟩,
   ⟨"length", 16, 16, .number⟩, ⟨"id", 32, 16, .number⟩, ⟨"flags", 48, 3, .number⟩,
   ⟨"evil", 48, 1, .number⟩, ⟨"dontfragment", 49, 1, .number⟩,
   ⟨"morefragments", 50, 1, .number⟩, ⟨"fragoffset", 51, 13, .number⟩, ⟨"ttl", 64, 8, .ttl⟩,
   ⟨"protocol", 72, 8, .nextHeader⟩, ⟨"checksum", 80, 16, .checksum⟩,
   ⟨"src", 96, 32, .ipv4Address⟩, ⟨"dst", 128, 32, .ipv4Address⟩]

def ipv6Fields : List ProtocolField :=
  [⟨"version", 0, 4, .number⟩, ⟨"class", 4, 8, .number⟩, ⟨"label", 12, 20, .number⟩,
   ⟨"length", 32, 16, .number⟩, ⟨"nextheader", 48, 8, .nextHeader⟩, ⟨"hoplimit", 56, 8, .ttl⟩,
   ⟨"src", 64, 128, .ipv6Address⟩, ⟨"dst", 192, 128, .ipv6Address⟩, ⟨"loc", 192, 64, .number⟩,
   ⟨"func", 256, 16, .number⟩, ⟨"flowid", 272, 20, .number⟩, ⟨"seq", 292, 28, .srv6Seq⟩]

def arpFields : List ProtocolField :=
  [⟨"hwtype", 0, 16, .number⟩, ⟨"prtype", 16, 16, .number⟩, ⟨"hwsize", 32, 8, .number⟩,
   ⟨"prsize", 40, 8, .number⟩, ⟨"opcode", 48, 16, .number⟩, ⟨"srcmac", 64, 48, .macAddress⟩,
   ⟨"srcip", 112, 32, .ipv4Address⟩, ⟨"dstmac", 144, 48, .macAddress⟩,
   ⟨"dstip", 192, 32, .ipv4Address⟩]

def udpFields : List ProtocolField :=
  [⟨"srcport", 0, 16, .number⟩, ⟨"dstport", 16, 16, .number⟩, ⟨"length", 32, 16, .number⟩,
   ⟨"checksum", 48, 16, .checksum⟩]

def tcpFields : List ProtocolField :=
  [⟨"srcport", 0, 16, .number⟩, ⟨"dstport", 16, 16, .number⟩, ⟨"seq", 32, 32, .number⟩,
   ⟨"ack", 64, 32, .number⟩, ⟨"dataoffs", 96, 4, .number⟩, ⟨"reserved", 100, 4, .number⟩,
   ⟨"flags", 104, 8, .number⟩, ⟨"cwr", 104, 1, .number⟩, ⟨"ece", 105, 1, .number⟩,
   -- the flag is never found, since the number above has its name
   ⟨"urg", 106, 1, .number⟩, ⟨"ack", 107, 1, .number⟩, ⟨"psh", 108, 1, .number⟩,
   ⟨"rst", 109, 1, .number⟩, ⟨"syn", 110, 1, .number⟩, ⟨"fin", 111, 1, .number⟩,
   ⟨"windowsize", 112, 16, .number⟩, ⟨"checksum", 128, 16, .checksum⟩,
   ⟨"urgentp", 144, 16, .number⟩]

def oamFields : List ProtocolField :=
  [⟨"oam_nibble", 0, 4, .number⟩, ⟨"version", 4, 4, .number⟩, ⟨"sequence", 8, 8, .number⟩,
   ⟨"channel", 16, 16, .number⟩, ⟨"nodeid", 32, 20, .number⟩, ⟨"level", 52, 3, .number⟩,
   ⟨"flags", 55, 5, .number⟩, ⟨"session", 60, 4, .number⟩]

def oamrtagFields : List ProtocolField :=
  [⟨"oam_nibble", 0, 4, .number⟩, ⟨"reserved", 4, 4, .number⟩, ⟨"sequence", 8, 8, .number⟩,
   ⟨"flags", 16, 8, .number⟩, ⟨"version", 24, 4, .number⟩, ⟨"session", 28, 4, .number⟩]

def cfmFields : List ProtocolField :=
  [⟨"mel", 0, 3, .number⟩, ⟨"version", 3, 5, .number⟩, ⟨"opcode", 8, 8, .number⟩,
   ⟨"flags", 16, 8, .number⟩, ⟨"tlvoffset", 24, 8, .number⟩]

def icmpv4Fields : List ProtocolField :=
  [⟨"type", 0, 8, .number⟩, ⟨"code", 8, 8, .number⟩, ⟨"checksum", 16, 16, .checksum⟩,
   ⟨"identifier", 32, 16, .number⟩, ⟨"sequence", 48, 16, .number⟩, ⟨"unused", 32, 32, .number⟩,
   ⟨"gateway", 32, 32, .ipv4Address⟩, ⟨"pointer", 32, 8, .number⟩]

def icmpv6Fields : List ProtocolField :=
  [⟨"type", 0, 8, .number⟩, ⟨"code", 8, 8, .number⟩, ⟨"checksum", 16, 16, .checksum⟩,
   ⟨"identifier", 32, 16, .number⟩, ⟨"sequence", 48, 16, .number⟩, ⟨"unused", 32, 32, .number⟩,
   ⟨"mtu", 32, 32, .number⟩, ⟨"pointer", 32, 32, .number⟩]

def ipv4Default : List UInt8 :=
  [0x45, 0, 0, 0, 0, 0, 0, 0, 0x40, 0, 0, 0]

def ipv6Default : List UInt8 :=
  [0x60, 0, 0, 0, 0, 0, 0, 0x40]

def arpDefault : List UInt8 :=
  [0, 1, 8, 0, 6, 4, 0, 1]

/-- One fixed-size protocol header. The two conversions are missing where the
header has no field that names the next one. -/
structure Protocol where
  name : String
  headerFields : List ProtocolField
  bytelength : Nat
  getId : Option (Nat → Option ProtocolID)
  getNexthdr : Option (ProtocolID → Option Nat)
  defaultValue : List UInt8

/-- `protocol_list`, indexed by the id. -/
def protocolFromId : ProtocolID → Protocol
  | .payload => ⟨"payload", payloadFields, 0, none, none, []⟩
  | .eth => ⟨"eth", ethFields, 14, some idFromEthertype, some ethertypeFromId, []⟩
  | .svlan => ⟨"svlan", vlanFields, 4, some idFromEthertype, some ethertypeFromId, []⟩
  | .cvlan => ⟨"cvlan", vlanFields, 4, some idFromEthertype, some ethertypeFromId, []⟩
  | .rtag => ⟨"rtag", rtagFields, 6, some idFromEthertype, some ethertypeFromId, []⟩
  | .ttag => ⟨"ttag", ttagFields, 6, some idFromEthertype, some ethertypeFromId, []⟩
  | .mpls => ⟨"mpls", mplsFields, 4, none, none, []⟩
  | .dcw => ⟨"dcw", dcwFields, 4, none, none, []⟩
  | .tcw => ⟨"tcw", tcwFields, 4, none, none, []⟩
  | .ipv4 => ⟨"ipv4", ipv4Fields, 20, some idFromIpproto, some ipprotoFromId, ipv4Default⟩
  | .ipv6 => ⟨"ipv6", ipv6Fields, 40, some idFromIpproto, some ipprotoFromId, ipv6Default⟩
  | .arp => ⟨"arp", arpFields, 28, none, none, arpDefault⟩
  | .udp => ⟨"udp", udpFields, 8, none, none, []⟩
  | .tcp => ⟨"tcp", tcpFields, 20, none, none, []⟩
  | .oam => ⟨"oam", oamFields, 8, none, none, []⟩
  | .oamrtag => ⟨"oamrtag", oamrtagFields, 4, none, none, []⟩
  | .cfm => ⟨"cfm", cfmFields, 4, none, none, []⟩
  | .icmpv4 => ⟨"icmpv4", icmpv4Fields, 8, none, none, []⟩
  | .icmpv6 => ⟨"icmpv6", icmpv6Fields, 8, none, none, []⟩

def protocolIds : List ProtocolID :=
  [.payload, .eth, .svlan, .cvlan, .rtag, .ttag, .mpls, .dcw, .tcw, .ipv4, .ipv6, .arp, .udp, .tcp,
   .oam, .oamrtag, .cfm, .icmpv4, .icmpv6]

def protocolTypeValid (type : String) : Bool :=
  protocolIds.any fun id => (protocolFromId id).name = type

/-- Unknown names are taken for payload. -/
def protocolIdFromType (type : String) : ProtocolID :=
  (protocolIds.find? fun id => (protocolFromId id).name = type).getD .payload

def protocolTypeFromId (id : ProtocolID) : String :=
  (protocolFromId id).name

def protocolGetFieldByName (id : ProtocolID) (fieldname : String) : Option ProtocolField :=
  (protocolFromId id).headerFields.find? fun f => f.name = fieldname

def protocolGetFieldByType (id : ProtocolID) (type : ProtocolFieldType) : Option ProtocolField :=
  (protocolFromId id).headerFields.find? fun f => f.type = type

theorem bytelength_le (id : ProtocolID) : (protocolFromId id).bytelength ≤ 40 := by
  cases id <;> decide

end Dnt
