import Dnt.Core.IfUdp

/-!
# Addresses of Incoming UDP Interfaces

The part of `if_udp_in.c` that keeps the address the senders are told to send to. What is
sent to the senders, and how, is only the address.

## Main definitions

* `UdpInMonitor`: The state, with the list of the kernel.
* `udpinOpen`: `set_srcip` chooses from the list when the interface is opened.
* `handleMessage`: A thread reads the changes of the list one message at a time. A change
  reaches the list before its message is handled.
-/

namespace Dnt

theorem length_zeros : (List.replicate 16 (0 : UInt8)).length = 16 := rfl

/-- Nothing but zeros, for which `HAVE_IP` is false. -/
def noAddress : Octets 16 := ⟨List.replicate 16 0, length_zeros⟩

/-- An address of a device. Behind a short one there are zeros. -/
structure IfAddress where
  ifindex : Nat
  family : AddressFamily
  octets : Octets 16
  assigned : octets ≠ noAddress
  deriving DecidableEq

/-- The addresses in the order of `getifaddrs`. The kernel does not use an address that is
tentative, as it may turn out to be a duplicate. -/
structure AddressTable where
  listed : List IfAddress
  tentative : IfAddress → Bool

/-- An address that is listed is added again when its flags change. -/
inductive AddressEvent where
  | added (a : IfAddress) (tentative : Bool) (place : Nat)
  | removed (a : IfAddress)

def AddressEvent.address : AddressEvent → IfAddress
  | .added a _ _ => a
  | .removed a => a

def AddressTable.change (table : AddressTable) (e : AddressEvent) : AddressTable :=
  let others := table.listed.filter (· ≠ e.address)
  match e with
  | .added a tentative place =>
    ⟨others.take place ++ a :: others.drop place, Function.update table.tentative a tentative⟩
  | .removed _ => { table with listed := others }

/-- What `set_srcip` and the thread use of the private data, with the table. -/
structure UdpInMonitor where
  ifindex : Nat
  family : AddressFamily
  supported : family ≠ .unspec
  srcip : Octets 16
  table : AddressTable

def in6IsAddrLinklocal (octets : Octets 16) : Bool :=
  match octets.val with
  | first :: second :: _ => first == 0xfe && second &&& 0xc0 == 0x80
  | _ => false

def IfAddress.linkLocal (a : IfAddress) : Bool :=
  a.family == .inet6 && in6IsAddrLinklocal a.octets

/-- Whether the loop of `set_srcip` stops at an address. -/
def UdpInMonitor.takes (m : UdpInMonitor) (a : IfAddress) : Bool :=
  a.family == m.family && a.ifindex == m.ifindex &&
    (a.family == .inet6 && !in6IsAddrLinklocal a.octets || a.family == .inet)

/-- The address is only assigned when one is found. -/
def setSrcip (m : UdpInMonitor) : UdpInMonitor :=
  match m.table.listed.find? m.takes with
  | some a => { m with srcip := a.octets }
  | none => m

/-- What `udpin_open` starts the thread with. -/
def udpinOpen (ipversion ifindex : Nat) (table : AddressTable) : UdpInMonitor :=
  setSrcip
    { ifindex, table, srcip := noAddress
      family := if ipversion = 6 then .inet6 else .inet
      supported := by split <;> decide }

/-- A message, and `must_notify` for it. The message of a removed address has the flags the
address had. -/
def handleMessage (m : UdpInMonitor) (e : AddressEvent) : UdpInMonitor × Bool :=
  if e.address.ifindex ≠ m.ifindex ∨ e.address.family ≠ m.family then (m, false)
  else
    match e with
    | .added a tentative _ =>
      if tentative = true ∨ m.srcip ≠ noAddress then (m, false)
      else ({ m with srcip := a.octets }, true)
    | .removed a =>
      if m.table.tentative a = false ∧ m.srcip = a.octets then
        (setSrcip { m with srcip := noAddress }, true)
      else (m, false)

/-- A change and the round of the thread that hears of it, with what the senders are told.
They are also told when the last time was `late` seconds ago. -/
def monitorRound (m : UdpInMonitor) (e : AddressEvent × Nat) :
    UdpInMonitor × Option (Octets 16) :=
  let r := handleMessage { m with table := m.table.change e.1 } e.1
  (r.1, if r.2 = true ∨ 10 < e.2 then some r.1.srcip else none)

end Dnt
