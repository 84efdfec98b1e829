import Dnt.Core.IfUdp
import Dnt.Theory.Fields.Write

/-!
# Ports in Assignments

An assignment of a port of a UDP interface copies the first two octets of a number
that has four. On a little endian host these are the low octets in the wrong order,
and on a big endian host the high octets.

## Main definitions

* `UdpKind`: The two kinds of UDP interfaces.
* `fieldNumber`: The number that a field holds.

## Theorems

* `execute_port_iff`: The field has the number of the port after the assignment only if
  swapping its octets does not change it, or if the port is zero.
-/

namespace Dnt

open Bits

/-- The number that a field holds, its first bit being the most significant one. -/
def fieldNumber (p : Packet) (field : HeaderField) : Nat :=
  number (fieldBit p field) field.bitcount

/-! ### Numbers in memory -/

variable {lhs : ConfLhs} {proto : ProtocolID} {string : String}

theorem number_valueBit_octets {a b : UInt8} {rest : List UInt8} {bitcount : Nat} :
    number (valueBit ⟨a :: b :: rest, 0, bitcount⟩) 16 = a.toNat * 2 ^ 8 + b.toNat := by
  have hbits : ∀ k < 16, valueBit ⟨a :: b :: rest, 0, bitcount⟩ k =
      (a.toNat * 2 ^ 8 + b.toNat).testBit (16 - 1 - k) := by
    intro k hk
    have hb : b.toNat < 2 ^ 8 := b.toNat_lt
    rw [valueBit, Nat.zero_add, bit, Nat.mul_comm, Nat.testBit_two_pow_mul_add _ hb]
    by_cases hfirst : k < 8
    · have hdiv : k / 8 = 0 := by omega
      have hmod : k % 8 = k := by omega
      have hindex : 16 - 1 - k - 8 = 7 - k := by omega
      rw [if_neg (by omega), hdiv, hmod, hindex, ← octetBit_ofNat _ hfirst, UInt8.ofNat_toNat]
      rfl
    · have hdiv : k / 8 = 1 := by omega
      have hindex : 16 - 1 - k = 7 - k % 8 := by omega
      rw [if_pos (by omega), hdiv, hindex, ← octetBit_ofNat _ (Nat.mod_lt _ (by decide)),
        UInt8.ofNat_toNat]
      rfl
  have ha : a.toNat < 2 ^ 8 := a.toNat_lt
  have hb : b.toNat < 2 ^ 8 := b.toNat_lt
  rw [number_congr hbits, number_testBit, Nat.mod_eq_of_lt (by omega)]

variable (order : ByteOrder)

theorem number_portValue {port : UInt32} (hport : port.toNat < 2 ^ 16) :
    number (valueBit (portValue order port)) 16 =
      match order with
      | .little => port.toNat % 2 ^ 8 * 2 ^ 8 + port.toNat / 2 ^ 8
      | .big => 0 := by
  cases order with
  | little | big =>
    refine (number_valueBit_octets).trans ?_
    simp only [UInt32.toNat_toUInt8, UInt32.toNat_shiftRight, UInt32.toNat_ofNat,
      Nat.shiftRight_eq_div_pow, Nat.reduceMod, Nat.reducePow]
    omega

/-! ### The properties -/

inductive UdpKind where
  | udpIn
  | udpOut
  deriving DecidableEq, Repr

def UdpKind.Data : UdpKind → Type
  | .udpIn => UdpInIfData
  | .udpOut => UdpOutIfData

def UdpKind.getPropertyReader :
    (kind : UdpKind) → kind.Data → String → ProtocolFieldType → Value →
      Except String (kind.Data → Value)
  | .udpIn => udpinGetPropertyReader order
  | .udpOut => udpoutGetPropertyReader order

def UdpKind.port : (kind : UdpKind) → kind.Data → String → Option UInt32
  | .udpIn, (uid : UdpInIfData), property => if property = "port" then some uid.port else none
  | .udpOut, (uid : UdpOutIfData), property =>
    if property = "srcport" then some uid.sport
    else if property = "dstport" then some uid.dport
    else none

/-- Ports are read into numbers of two octets, and handed out as they are in memory. -/
theorem getPropertyReader_port {order : ByteOrder} {kind : UdpKind} {uid now : kind.Data}
    {property : String} {targetType : ProtocolFieldType} {target : Value}
    {producer : kind.Data → Value} {port : UInt32}
    (h : kind.getPropertyReader order uid property targetType target = .ok producer)
    (hport : kind.port now property = some port) :
    targetType = .number ∧ target.bitoffset % 8 = 0 ∧ target.bitcount = 16 ∧
      producer now = portValue order port := by
  cases kind with
  | udpIn =>
    simp only [UdpKind.getPropertyReader, udpinGetPropertyReader, UdpKind.port] at h hport
    split_ifs at hport with hname
    cases hport
    rw [if_pos hname] at h
    exact propertyReader_reads h now
  | udpOut =>
    simp only [UdpKind.getPropertyReader, udpoutGetPropertyReader, UdpKind.port] at h hport
    split_ifs at hport with hsrc hdst
    · cases hport
      rw [if_pos hsrc] at h
      exact propertyReader_reads h now
    · cases hport
      rw [if_neg hsrc, if_pos hdst] at h
      exact propertyReader_reads h now

/-! ### Assignments -/

theorem processAssignmentLhs_place {s : StageState} {mustWrite : List MustWriteField}
    (h : processAssignmentLhs s string = .ok (lhs, proto, mustWrite)) :
    lhs.field.field.bitoffset = lhs.value.bitoffset ∧
      lhs.field.field.bitcount = lhs.value.bitcount := by
  obtain ⟨names, _, h⟩ := bind_eq_ok.mp h
  obtain ⟨hd, _, h⟩ := bind_eq_ok.mp h
  obtain ⟨f, _, h⟩ := bind_eq_ok.mp h
  cases h
  exact ⟨rfl, rfl⟩

/-- A right-hand side that is a property can be read, and there is a writer for it. -/
theorem processAssignmentRhs_iface {env : CompileEnv} {headers : List ConfHeader}
    {property : String} {type : ProtocolFieldType} {value : Value}
    {iface : Interface} {w : FieldWriter} (h : processAssignmentRhs env headers lhs proto string =
      .ok (.iface type value iface property, w)) :
    (∃ reader, iface.getPropertyReader = some reader ∧
      reader property lhs.valueType lhs.value = true) ∧ headerGetFieldWriter lhs.field.field
        (initValue (lhs.value.bitoffset % 8) lhs.value.bitcount) = some w := by
  have hconst : rhsConst env lhs proto string ≠ .ok (.iface type value iface property, w) := by
    intro h
    obtain ⟨_, _, h⟩ := bind_eq_ok.mp h
    obtain ⟨_, _, h⟩ := bind_eq_ok.mp h
    obtain ⟨_, _, h⟩ := bind_eq_ok.mp h
    cases h
  have hfield (hd : ConfHeader) (key val : String) :
      rhsField headers lhs hd key val ≠ .ok (.iface type value iface property, w) := by
    intro h
    obtain ⟨_, _, h⟩ := bind_eq_ok.mp h
    obtain ⟨_, _, h⟩ := bind_eq_ok.mp h
    obtain ⟨_, _, h⟩ := bind_eq_ok.mp h
    obtain ⟨_, _, h⟩ := bind_eq_ok.mp h
    cases h
  unfold processAssignmentRhs at h
  split at h
  · exact absurd h hconst
  · split at h
    · split_ifs at h
      exact absurd h (hfield _ _ _)
    · split at h
      · obtain ⟨reader, hreader, h⟩ := bind_eq_ok.mp h
        obtain ⟨_, hproperty, h⟩ := bind_eq_ok.mp h
        obtain ⟨_, hwrite, h⟩ := bind_eq_ok.mp h
        cases h
        rw [orThrow_eq_ok] at hreader hwrite
        rw [require_eq_ok] at hproperty
        exact ⟨⟨reader, hreader, hproperty⟩, hwrite⟩
      · exact absurd h hconst

/-- The ports that an assignment puts into a field as they should be. -/
def PortSurvives (port : Nat) : Prop :=
  match order with
  | .little => port / 2 ^ 8 = port % 2 ^ 8
  | .big => port = 0

/-- After an assignment of a port that was accepted, the field has the number of the port if
and only if the port survives the copying of its octets. -/
theorem execute_port_iff (kind : UdpKind) (uid now : kind.Data)
    {env : CompileEnv} {s : StageState} {left right property : String} {lhs : ConfLhs}
    {proto : ProtocolID} {mustWrite : List MustWriteField} {type : ProtocolFieldType}
    {value : Value} {iface : Interface} {w : FieldWriter} {port : UInt32}
    (hlhs : processAssignmentLhs s left = .ok (lhs, proto, mustWrite))
    (hrhs : processAssignmentRhs env s.headers lhs proto right =
      .ok (.iface type value iface property, w))
    (hiface : iface.getPropertyReader = some fun property type target =>
      (kind.getPropertyReader order uid property type target).isOk)
    (hname : kind.port now property = some port) (hport : port.toNat < 2 ^ 16) :
    ∃ producer, kind.getPropertyReader order uid property lhs.valueType lhs.value = .ok producer ∧
      ∀ p, fieldNumber
          (EditAssign.execute ⟨w, lhs.field.field, .property (producer now)⟩ p) lhs.field.field =
          port.toNat ↔ PortSurvives order port.toNat := by
  obtain ⟨⟨reader, hreader, hproperty⟩, hwriter⟩ := processAssignmentRhs_iface hrhs
  obtain ⟨hfoffset, hfcount⟩ := processAssignmentLhs_place hlhs
  -- the reader that was found
  cases hreader.symm.trans hiface
  cases hfound : kind.getPropertyReader order uid property lhs.valueType lhs.value with
  | error msg =>
    simp only [hfound] at hproperty
    cases hproperty
  | ok producer =>
    obtain ⟨_, hoffset, hcount, hvalue⟩ := getPropertyReader_port hfound hname
    refine ⟨producer, rfl, fun p => ?_⟩
    rw [hcount] at hfcount
    -- the writer sets the bits of the field to those of the port in memory
    have hfit : Fitting lhs.field.field (portValue order port).ref p :=
      fitting_ref p hfcount.symm (by rw [hfoffset, hoffset]; rfl)
    have hcount' : (initValue (lhs.value.bitoffset % 8) lhs.value.bitcount).bitcount =
        lhs.field.field.bitcount := hcount.trans hfcount.symm
    have hoffset' : (initValue (lhs.value.bitoffset % 8) lhs.value.bitcount).bitoffset % 8 =
        lhs.field.field.bitoffset % 8 := by
      rw [hfoffset]
      exact Nat.mod_mod _ _
    obtain ⟨w', hw', hset⟩ := partSet_writeField hfit hcount' hoffset'
    cases hwriter.symm.trans hw'
    have hbits := hset.fieldSet.bits
    rw [hfcount] at hbits
    have hnumber : fieldNumber
        (EditAssign.execute ⟨w, lhs.field.field, .property (producer now)⟩ p) lhs.field.field =
        number (valueBit (portValue order port)) 16 := by
      rw [fieldNumber, hfcount, hvalue]
      exact number_congr fun k hk => (hbits k hk).trans (bit_ref _ p k)
    rw [hnumber, number_portValue order hport]
    cases order with
    | little | big =>
      simp only [PortSurvives]
      omega

def sendsTo (port : UInt32) : UdpOutIfData :=
  ⟨port, port, .inet, ⟨List.replicate 16 0, rfl⟩⟩

def sendsToEnv (port : UInt32) : CompileEnv where
  iface := fun name =>
    if name = "out" then
      some ⟨"out", some fun property type target =>
        (udpoutGetPropertyReader order (sendsTo port) property type target).isOk⟩
    else none
  object := fun _ => none
  streamsSec := fun _ => none
  readConstant := fun _ _ _ _ => none
  scanDelay := fun _ => none
  scanLevel := fun _ => none

def udpState : StageState :=
  ⟨"s", [], [⟨0, 0, ⟨"udp", .udp, []⟩⟩], false, false, false, false, none, [], [], 1, []⟩

/-- The left-hand side `udp.dstport`. -/
def udpDstport : ConfLhs :=
  ⟨.number, ⟨[], 16, 16⟩, ⟨⟨0, 16, 16⟩, 0⟩, "udp", "dstport"⟩

theorem processAssignmentLhs_udpDstport :
    processAssignmentLhs udpState "udp.dstport" = .ok (udpDstport, .udp, []) := by
  rfl

theorem processAssignmentRhs_dstport (port : UInt32) :
    ∃ iface, (sendsToEnv order port).iface "out" = some iface ∧
      processAssignmentRhs (sendsToEnv order port) udpState.headers udpDstport .udp "out.dstport" =
        .ok (.iface .number ⟨[], 0, 16⟩ iface "dstport", .bytes) :=
  ⟨_, rfl, rfl⟩

/-- The two octets of this port are the same. -/
theorem execute_port_iff_equal_octets :
    ∃ producer, udpoutGetPropertyReader .little (sendsTo 0x1212) "dstport" .number ⟨[], 16, 16⟩ =
        .ok producer ∧
      ∀ p, fieldNumber (EditAssign.execute
          ⟨.bytes, ⟨0, 16, 16⟩, .property (producer (sendsTo 0x1212))⟩ p) ⟨0, 16, 16⟩ = 0x1212 := by
  obtain ⟨iface, hiface, hrhs⟩ := processAssignmentRhs_dstport .little 0x1212
  cases hiface
  obtain ⟨producer, hproducer, hnumber⟩ :=
    execute_port_iff .little .udpOut (sendsTo 0x1212) (sendsTo 0x1212)
      processAssignmentLhs_udpDstport hrhs rfl rfl (by decide)
  exact ⟨producer, hproducer, fun p => (hnumber p).mpr rfl⟩

def zeroUdp : Packet :=
  ⟨fun _ => 0, 0, 8, 0, [⟨.udp, 0, 8⟩]⟩

/-- Port 6635 becomes port 60185 on a little endian host, and 0 on a big endian one. -/
theorem execute_port_swapped :
    processAssignmentLhs udpState "udp.dstport" = .ok (udpDstport, .udp, []) ∧
      (∀ order, ∃ iface, (sendsToEnv order 6635).iface "out" = some iface ∧
        processAssignmentRhs (sendsToEnv order 6635) udpState.headers udpDstport .udp
            "out.dstport" =
          .ok (.iface .number ⟨[], 0, 16⟩ iface "dstport", .bytes)) ∧
      (∀ order, udpoutGetPropertyReader order (sendsTo 6635) "dstport" .number ⟨[], 16, 16⟩ =
        .ok (udpoutDstportProducer order)) ∧
      fieldNumber (EditAssign.execute ⟨.bytes, ⟨0, 16, 16⟩,
        .property (udpoutDstportProducer .little (sendsTo 6635))⟩ zeroUdp) ⟨0, 16, 16⟩ = 60185 ∧
      fieldNumber (EditAssign.execute ⟨.bytes, ⟨0, 16, 16⟩,
        .property (udpoutDstportProducer .big (sendsTo 6635))⟩ zeroUdp) ⟨0, 16, 16⟩ = 0 :=
  ⟨processAssignmentLhs_udpDstport, fun order => processAssignmentRhs_dstport order 6635,
    fun _ => rfl, by decide, by decide⟩

end Dnt
