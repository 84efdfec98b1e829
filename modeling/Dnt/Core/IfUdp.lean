import Dnt.Core.ConfConstant

/-!
# Properties of UDP Interfaces

The parts of `if_udp_in.c` and `if_udp_out.c` that let an assignment read a port or
an address of the interface. The octets of a port are those of an `unsigned` in memory,
which depend on the byte order of the host.

## Main definitions

* `UdpInIfData`, `UdpOutIfData`: The private data of the two kinds of interfaces.
* `propertyReader`: The reader is looked up when a line is compiled, and its producer is
  called when a packet is edited.
-/

namespace Dnt

inductive ByteOrder where
  | little
  | big
  deriving DecidableEq, Repr

/-- An `unsigned` in memory. -/
def unsignedOctets (order : ByteOrder) (n : UInt32) : List UInt8 :=
  let octets := [n.toUInt8, (n >>> 8).toUInt8, (n >>> 16).toUInt8, (n >>> 24).toUInt8]
  match order with
  | .little => octets
  | .big => octets.reverse

inductive AddressFamily where
  | unspec
  | inet
  | inet6
  deriving DecidableEq, Repr

def AddressFamily.fieldType (family : AddressFamily) : ProtocolFieldType :=
  if family = .inet6 then .ipv6Address else .ipv4Address

def AddressFamily.bitcount (family : AddressFamily) : Nat :=
  if family = .inet6 then 128 else 32

/-- The union of both kinds of addresses has the octets of the longer one. -/
structure UdpInIfData where
  port : UInt32
  family : AddressFamily
  srcip : Octets 16

structure UdpOutIfData where
  sport : UInt32
  dport : UInt32
  family : AddressFamily
  dstip : Octets 16

/-- The producer of a property, for fields of a type with a number of whole octets, or what is
logged. -/
def propertyReader {δ : Type} (reader property : String) (type : ProtocolFieldType) (bitcount : Nat)
    (producer : δ → Value) (targetType : ProtocolFieldType) (target : Value) :
    Except String (δ → Value) :=
  if targetType ≠ type then
    .error (reader ++ " '" ++ property ++ "' target type " ++ toString targetType.ctorIdx ++
      " invalid")
  else if target.bitoffset % 8 ≠ 0 ∨ target.bitcount ≠ bitcount then
    .error (reader ++ " '" ++ property ++ "' target position " ++ toString target.bitoffset ++
      " " ++ toString target.bitcount ++ " invalid")
  else .ok producer

variable (order : ByteOrder) (uid : UdpOutIfData)

/-- A port, as the producers hand it out. -/
def portValue (port : UInt32) : Value :=
  ⟨unsignedOctets order port, 0, 2 * 8⟩

/-! ### Incoming -/

def udpinPortProducer (uid : UdpInIfData) : Value :=
  portValue order uid.port

def udpinSrcipProducer (uid : UdpInIfData) : Value :=
  ⟨uid.srcip.val, 0, uid.family.bitcount⟩

def udpinGetPropertyReader (uid : UdpInIfData) (property : String) (targetType : ProtocolFieldType)
    (target : Value) : Except String (UdpInIfData → Value):=
  if property = "port" then
    propertyReader "udpin_get_property_reader" "port" .number (2 * 8) (udpinPortProducer order)
      targetType target
  else if property = "srcip" then
    propertyReader "udpin_get_property_reader" "srcip" uid.family.fieldType uid.family.bitcount
      udpinSrcipProducer targetType target
  else .error ("udpin_get_property_reader unknown property '" ++ property ++ "'")

/-! ### Outgoing -/

def udpoutSrcportProducer : Value :=
  portValue order uid.sport

def udpoutDstportProducer : Value :=
  portValue order uid.dport

def udpoutDstipProducer : Value :=
  ⟨uid.dstip.val, 0, uid.family.bitcount⟩

/-- What is logged about the destination address calls it the source address. -/
def udpoutGetPropertyReader (property : String) (targetType : ProtocolFieldType) (target : Value) :
    Except String (UdpOutIfData → Value):=
  if property = "srcport" then
    propertyReader "udpout_get_property_reader" "srcport" .number (2 * 8)
      (udpoutSrcportProducer order) targetType target
  else if property = "dstport" then
    propertyReader "udpout_get_property_reader" "dstport" .number (2 * 8)
      (udpoutDstportProducer order) targetType target
  else if property = "dstip" then
    propertyReader "udpout_get_property_reader" "srcip" uid.family.fieldType uid.family.bitcount
      udpoutDstipProducer targetType target
  else .error ("udpout_get_property_reader unknown property '" ++ property ++ "'")

theorem propertyReader_reads {δ : Type} {reader property : String} {type : ProtocolFieldType}
    {bitcount : Nat} {producer found : δ → Value} {targetType : ProtocolFieldType} {target : Value}
    (h : propertyReader reader property type bitcount producer targetType target = .ok found)
    (now : δ) : targetType = type ∧ target.bitoffset % 8 = 0 ∧ target.bitcount = bitcount ∧
      found now = producer now := by
  unfold propertyReader at h
  grind

end Dnt
