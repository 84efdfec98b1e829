import Dnt.Core.IfInternal
import Dnt.Core.IfUdp

/-!
# Destinations of Outgoing UDP Interfaces

Opening an interface of `if_udp_out.c` and changing where it sends to. An interface that has
no destination yet is opened later.

## Main definitions

* `UdpOut`: The interface, with its socket if there is one.
* `SocketFate`: What the socket calls do. A call that fails is one of those before the
  destination is filled in, or the last one, which is only made for offloaded delays.
* `udpoutOpen`, `udpOutSetDst`: Opening it, and learning a destination.
-/

namespace Dnt

/-- `inet_pton` for both families. The text for a lost address is not an address. -/
structure AddressReader where
  inetPton : String → Option (Octets 4)
  inetPton6 : String → Option (Octets 16)
  none4 : inetPton "<none>" = none
  none6 : inetPton6 "<none>" = none

def AddressReader.read (r : AddressReader) (ip : String) : Option (AddressFamily × List UInt8) :=
  match r.inetPton ip, r.inetPton6 ip with
  | some a, _ => some (.inet, a.val)
  | none, some a => some (.inet6, a.val)
  | none, none => none

structure SockAddr where
  family : AddressFamily
  addr : List UInt8
  port : Nat
  deriving DecidableEq

/-- No socket is a 0, as `udpout_send` reads it. -/
structure UdpOut where
  state : IfaceState
  delayOffload : Bool
  opened : Bool
  sock : Nat
  dstaddr : Option SockAddr
  dstIp : String
  dport : Nat
  family : AddressFamily
  dstip : List UInt8
  deriving DecidableEq

/-- The descriptor, if all calls up to the destination succeed, and `enable_so_txtime`. -/
structure SocketFate where
  sock : Option Nat
  txtime : Bool

/-- `htons` of the port keeps the lower half of it. -/
def UdpOut.sockaddr (s : UdpOut) : SockAddr :=
  ⟨s.family, s.dstip, s.dport % 65536⟩

def AddressFamily.zeros (family : AddressFamily) : List UInt8 :=
  List.replicate (family.bitcount / 8) 0

/-- The port has been checked by `conf_interface.c`. -/
def newUdpOutInterface (r : AddressReader) (ip : String) (port : Fin 65536) (delayOffload : Bool) :
    Option UdpOut :=
  let new (dstIp : String) (dst : AddressFamily × List UInt8) : UdpOut :=
    ⟨.init, delayOffload, false, 0, none, dstIp, port, dst.1, dst.2⟩
  match r.read ip with
  | some dst => some (new ip dst)
  | none =>
    if ip = "ipv4" then some (new "<none>" (.inet, AddressFamily.inet.zeros))
    else if ip = "ipv6" then some (new "<none>" (.inet6, AddressFamily.inet6.zeros))
    else none

def udpoutOpen (s : UdpOut) (fate : SocketFate) : UdpOut × Bool :=
  if s.state ≠ .init then (s, false)
  else if s.dstIp = "<none>" then ({ s with opened := true }, true)
  else
    match fate.sock with
    | none => ({ s with opened := true }, false)
    | some fd =>
      if s.delayOffload = true ∧ fate.txtime = false then
        ({ s with opened := true, dstaddr := some s.sockaddr }, false)
      else
        ({ s with opened := true, dstaddr := some s.sockaddr, sock := fd, state := .opened }, true)

def recordDst (s : UdpOut) (ip : String) (port : Nat) (dstip : List UInt8) : UdpOut :=
  { s with dport := port, dstIp := ip, dstip := dstip }

/-- What is done with a destination that has been recorded. -/
def useDst (s : UdpOut) (specified : Bool) (fate : SocketFate) : UdpOut × Bool :=
  if s.state = .init then
    if s.opened = true then udpoutOpen s fate else (s, true)
  else if specified = true then ({ s with dstaddr := some s.sockaddr }, true)
  else ({ s with state := .init, sock := 0, dstaddr := none }, true)

/-- A port that is too large is only logged. -/
def udpOutSetDst (r : AddressReader) (s : UdpOut) (ip : String) (port : Nat) (fate : SocketFate) :
    UdpOut × Bool :=
  if port = s.dport ∧ ip = s.dstIp then (s, true)
  else
    match r.read ip with
    | none =>
      if ip = "<none>" then useDst (recordDst s ip port s.family.zeros) false fate
      else (s, false)
    | some (family, addr) =>
      if family ≠ s.family then (s, false)
      else useDst (recordDst s ip port addr) true fate

inductive UdpOutCall where
  | open (fate : SocketFate)
  | setDst (ip : String) (port : Nat) (fate : SocketFate)

def udpOutStep (r : AddressReader) (s : UdpOut) : UdpOutCall → UdpOut × Bool
  | .open fate => udpoutOpen s fate
  | .setDst ip port fate => udpOutSetDst r s ip port fate

end Dnt
