import Dnt.Core.IfUdpOut

/-!
# Where an Outgoing Interface Sends To

The destination of an outgoing interface is kept as a text, as an address with a
port, and in the structure that is given to the socket. They differ in three cases:
a port of more than 16 bits does not fit into the structure, a repeated notification
does not open an interface that could not be opened before, and a socket may be
descriptor 0, which stands for no socket.

## Main definitions

* `CallRight`: An interface is open just if it has a socket towards its recorded destination,
  refused calls change nothing, and accepted ones lead to their address.
* `CarefulCall`: The calls for which this is so.

## Theorems

* `udpOutRun_right_iff`: All calls of a run are right exactly if all are careful.
-/

namespace Dnt

open Mealy

variable {r : AddressReader} {s : UdpOut} {ip : String} {port : Nat} {fate : SocketFate}

def UdpOut.recorded (s : UdpOut) : SockAddr :=
  ⟨s.family, s.dstip, s.dport⟩

/-- Opened means that there is a socket, and the recorded address in `dstaddr`. -/
def UdpOut.OpenRight (s : UdpOut) : Prop :=
  s.state = .opened ↔ s.sock ≠ 0 ∧ s.dstaddr = some s.recorded

/-- The address is one of the family, or the text for a lost one. -/
def Accepts (r : AddressReader) (s : UdpOut) (ip : String) : Prop :=
  match r.read ip with
  | some (family, _) => family = s.family
  | none => ip = "<none>"

/-- Refused calls change nothing, and those that are answered with true lead to the address. -/
structure SetRight (r : AddressReader) (s : UdpOut) (ip : String) (port : Nat)
    (res : UdpOut × Bool) : Prop where
  refused : ¬ Accepts r s ip ∨ 65535 < port → res = (s, false)
  towards : ∀ addr, r.read ip = some (s.family, addr) → s.opened = true → res.2 = true →
    res.1.state = .opened ∧ res.1.dstaddr = some ⟨s.family, addr, port⟩

/-- A call keeps this, and sets the destination it was given. -/
def CallRight (r : AddressReader) (s : UdpOut) (call : UdpOutCall) : Prop :=
  (udpOutStep r s call).1.OpenRight ∧
    match call with
    | .open _ => True
    | .setDst ip port fate => SetRight r s ip port (udpOutSetDst r s ip port fate)

/-- Opening for an address gets through, unless with descriptor 0. -/
def NotZero (s : UdpOut) (ip : String) (fate : SocketFate) : Prop :=
  s.state = .init → ip ≠ "<none>" → (s.delayOffload = true → fate.txtime = true) →
    fate.sock ≠ some 0

def CarefulCall (r : AddressReader) (s : UdpOut) : UdpOutCall → Prop
  | .open fate => NotZero s s.dstIp fate
  | .setDst ip port fate =>
    Accepts r s ip → port ≤ 65535 ∧
      if port = s.dport ∧ ip = s.dstIp then
        ip ≠ "<none>" → s.opened = true → s.state = .opened
      else s.opened = true → NotZero s ip fate

/-- What careful calls keep true. -/
structure UdpOut.Sound (r : AddressReader) (s : UdpOut) : Prop where
  right : s.OpenRight
  states : s.state = .init ∧ s.sock = 0 ∨ s.state = .opened ∧ s.opened = true
  port : s.dport ≤ 65535
  named : r.read s.dstIp = some (s.family, s.dstip) ∨ s.dstIp = "<none>"

/-- A result that is right if a condition holds, and then leads to what is recorded if it is
true and there is an address. -/
structure Settled (r : AddressReader) (cond : Prop) (s : UdpOut) (res : UdpOut × Bool) : Prop where
  iff : res.1.OpenRight ↔ cond
  sound : cond → res.1.Sound r
  towards : res.2 = true → s.dstIp ≠ "<none>" →
    res.1.state = .opened ∧ res.1.dstaddr = some s.recorded

theorem AddressReader.read_none (r : AddressReader) : r.read "<none>" = none := by
  rw [read, r.none4, r.none6]

theorem ne_none_of_read {dst : AddressFamily × List UInt8} (h : r.read ip = some dst) :
    ip ≠ "<none>" := by
  rintro rfl
  rw [r.read_none] at h
  cases h

theorem sockaddr_eq (hport : s.dport ≤ 65535) : s.sockaddr = s.recorded := by
  rw [UdpOut.sockaddr, UdpOut.recorded, Nat.mod_eq_of_lt (by omega)]

section Recorded

variable (hport : s.dport ≤ 65535)
  (hnamed : r.read s.dstIp = some (s.family, s.dstip) ∨ s.dstIp = "<none>")

include hport hnamed

theorem sound_closed (hstate : s.state = .init) (hsock : s.sock = 0) : s.Sound r := by
  refine ⟨iff_of_false ?_ fun h => h.1 hsock, .inl ⟨hstate, hsock⟩, hport, hnamed⟩
  rw [hstate]
  decide

theorem sound_opened (hstate : s.state = .opened) (hopened : s.opened = true) (hsock : s.sock ≠ 0)
    (haddr : s.dstaddr = some s.sockaddr) : s.Sound r := by
  refine ⟨iff_of_true hstate ⟨hsock, ?_⟩, .inr ⟨hstate, hopened⟩, hport, hnamed⟩
  rw [haddr, sockaddr_eq hport]

theorem settled_udpoutOpen (hstate : s.state = .init) (hsock : s.sock = 0) (fate : SocketFate) :
    Settled r (NotZero s s.dstIp fate) s (udpoutOpen s fate) := by
  have hclosed (dstaddr : Option SockAddr) :
      ({ s with opened := true, dstaddr } : UdpOut).Sound r :=
    sound_closed hport hnamed hstate hsock
  unfold udpoutOpen
  rw [if_neg (not_not.mpr hstate)]
  by_cases hnone : s.dstIp = "<none>"
  · rw [if_pos hnone]
    have hcond : NotZero s s.dstIp fate := fun _ hne => absurd hnone hne
    exact ⟨iff_of_true (hclosed _).right hcond, fun _ => hclosed _, fun _ h => absurd hnone h⟩
  rw [if_neg hnone]
  cases hfate : fate.sock with
  | none =>
    have hcond : NotZero s s.dstIp fate := fun _ _ _ => by rw [hfate]; nofun
    exact ⟨iff_of_true (hclosed _).right hcond, fun _ => hclosed _, nofun⟩
  | some fd =>
    dsimp only
    split_ifs with htx
    · have hcond : NotZero s s.dstIp fate := fun _ _ h => by simp [h htx.1] at htx
      exact ⟨iff_of_true (hclosed _).right hcond, fun _ => hclosed _, nofun⟩
    · have hcond : NotZero s s.dstIp fate ↔ fd ≠ 0 := by
        simp only [NotZero, hfate, ne_eq, Option.some.injEq]
        exact ⟨fun h => h hstate hnone (by simpa using htx), fun h _ _ _ => h⟩
      have hsound (h : NotZero s s.dstIp fate) :=
        sound_opened (s := ⟨.opened, s.delayOffload, true, fd, some s.sockaddr, s.dstIp, s.dport,
          s.family, s.dstip⟩) hport hnamed rfl rfl (hcond.mp h) rfl
      refine ⟨⟨fun h => hcond.mpr (h.mp rfl).1, fun h => (hsound h).right⟩, hsound, fun _ _ => ?_⟩
      exact ⟨rfl, by rw [← sockaddr_eq hport]⟩

theorem settled_useDst {specified : Bool} (hspec : specified = true ↔ s.dstIp ≠ "<none>")
    (hstates : s.state = .init ∧ s.sock = 0 ∨ s.state = .opened ∧ s.sock ≠ 0) (fate : SocketFate)
    (hopened : s.opened = true) :
    Settled r (NotZero s s.dstIp fate) s (useDst s specified fate) := by
  unfold useDst
  obtain ⟨hstate, hsock⟩ | ⟨hstate, hsock⟩ := hstates
  · rw [if_pos hstate, if_pos hopened]
    exact settled_udpoutOpen hport hnamed hstate hsock fate
  have hinit : s.state ≠ .init := by rw [hstate]; decide
  have hcond : NotZero s s.dstIp fate := fun h => absurd h hinit
  rw [if_neg hinit]
  by_cases hne : s.dstIp = "<none>"
  · rw [if_neg fun h => hspec.mp h hne]
    have hsound := sound_closed (s := { s with state := .init, sock := 0, dstaddr := none })
      hport hnamed rfl rfl
    exact ⟨iff_of_true hsound.right hcond, fun _ => hsound, fun _ h => absurd hne h⟩
  · rw [if_pos (hspec.mpr hne)]
    have hsound := sound_opened (s := { s with dstaddr := some s.sockaddr }) hport hnamed hstate
      hopened hsock rfl
    refine ⟨iff_of_true hsound.right hcond, fun _ => hsound, fun _ _ => ⟨hstate, ?_⟩⟩
    rw [← sockaddr_eq hport]

end Recorded

/-- Without a request to open, an interface that is closed stays so. -/
theorem useDst_unopened (hstate : s.state = .init) (hopened : ¬ s.opened = true) (specified : Bool)
    (fate : SocketFate) : useDst s specified fate = (s, true) := by
  rw [useDst, if_pos hstate, if_neg hopened]

theorem useDst_dport (s : UdpOut) (specified : Bool) (fate : SocketFate) :
    (useDst s specified fate).1.dport = s.dport := by
  unfold useDst udpoutOpen
  split_ifs <;> first | rfl | (cases fate.sock <;> rfl)

theorem UdpOut.Sound.accepts (h : s.Sound r) : Accepts r s s.dstIp := by
  unfold Accepts
  obtain hread | hnone := h.named
  · rw [hread]
  · rw [hnone, r.read_none]

theorem setDst_refused (h : s.Sound r) (hacc : ¬ Accepts r s ip) :
    udpOutSetDst r s ip port fate = (s, false) := by
  have hsame : ¬ (port = s.dport ∧ ip = s.dstIp) := fun hs => hacc (hs.2 ▸ h.accepts)
  rw [udpOutSetDst, if_neg hsame]
  unfold Accepts at hacc
  cases hread : r.read ip with
  | none =>
    rw [hread] at hacc
    exact if_neg hacc
  | some dst =>
    rw [hread] at hacc
    exact if_pos hacc

theorem setDst_accepted (hacc : Accepts r s ip) (hsame : ¬ (port = s.dport ∧ ip = s.dstIp)) :
    ∃ dstip specified, udpOutSetDst r s ip port fate =
        useDst (recordDst s ip port dstip) specified fate ∧ (specified = true ↔ ip ≠ "<none>") ∧
      (r.read ip = some (s.family, dstip) ∨ ip = "<none>") := by
  rw [udpOutSetDst, if_neg hsame]
  unfold Accepts at hacc
  cases hread : r.read ip with
  | none =>
    rw [hread] at hacc
    refine ⟨s.family.zeros, false, if_pos hacc, iff_of_false nofun (not_not.mpr hacc), .inr hacc⟩
  | some dst =>
    rw [hread] at hacc
    have hne := ne_none_of_read hread
    exact ⟨dst.2, true, if_neg (not_not.mpr hacc), iff_of_true rfl hne, .inl (by rw [← hacc])⟩

theorem setRight_iff (hacc : Accepts r s ip) (hport : port ≤ 65535) {res : UdpOut × Bool} :
    SetRight r s ip port res ↔
      ∀ addr, r.read ip = some (s.family, addr) → s.opened = true → res.2 = true →
        res.1.state = .opened ∧ res.1.dstaddr = some ⟨s.family, addr, port⟩ := by
  refine ⟨SetRight.towards, fun h => ⟨fun hno => ?_, h⟩⟩
  obtain hno | hlarge := hno
  · exact absurd hacc hno
  · omega

/-- A call that records a new destination. -/
theorem changed_right (h : s.Sound r) (hacc : Accepts r s ip)
    (hsame : ¬ (port = s.dport ∧ ip = s.dstIp)) (hport : port ≤ 65535) :
    (CallRight r s (.setDst ip port fate) ↔ (s.opened = true → NotZero s ip fate)) ∧
      ((s.opened = true → NotZero s ip fate) → (udpOutSetDst r s ip port fate).1.Sound r) := by
  obtain ⟨dstip, specified, heq, hspec, hnamed⟩ := @setDst_accepted r s ip port fate hacc hsame
  rw [CallRight, udpOutStep, setRight_iff hacc hport, heq]
  by_cases hopened : s.opened = true
  · have hstates : s.state = .init ∧ s.sock = 0 ∨ s.state = .opened ∧ s.sock ≠ 0 :=
      h.states.imp_right fun hc => ⟨hc.1, (h.right.mp hc.1).1⟩
    have hset := settled_useDst (s := recordDst s ip port dstip) hport hnamed hspec hstates fate
      hopened
    refine ⟨⟨fun hr _ => hset.iff.mp hr.1, fun hc => ⟨hset.iff.mpr (hc hopened), ?_⟩⟩,
      fun hc => hset.sound (hc hopened)⟩
    intro addr hread _ htrue
    have hne := ne_none_of_read hread
    cases hread.symm.trans (hnamed.resolve_right hne)
    exact hset.towards htrue hne
  · obtain ⟨hstate, hsock⟩ := h.states.resolve_right fun hc => hopened hc.2
    rw [useDst_unopened (s := recordDst s ip port dstip) hstate hopened]
    have hsound := sound_closed (s := recordDst s ip port dstip) hport hnamed hstate hsock
    exact ⟨iff_of_true ⟨hsound.right, fun _ _ ho => absurd ho hopened⟩ (absurd · hopened),
      fun _ => hsound⟩

theorem callRight_setDst (h : s.Sound r) :
    (CallRight r s (.setDst ip port fate) ↔ CarefulCall r s (.setDst ip port fate)) ∧
      (CarefulCall r s (.setDst ip port fate) → (udpOutSetDst r s ip port fate).1.Sound r) := by
  by_cases hacc : Accepts r s ip
  swap
  · have heq := @setDst_refused r s ip port fate h hacc
    rw [CallRight, udpOutStep, heq]
    refine ⟨iff_of_true ⟨h.right, fun _ => rfl, fun _ _ _ hok => ?_⟩ (absurd · hacc), fun _ => h⟩
    exact absurd hok Bool.false_ne_true
  by_cases hport : port ≤ 65535
  swap
  · -- the port is recorded, so the call was not refused
    have hsame : ¬ (port = s.dport ∧ ip = s.dstIp) := fun hs => hport (hs.1 ▸ h.port)
    obtain ⟨dstip, specified, heq, -⟩ := @setDst_accepted r s ip port fate hacc hsame
    have hcareful : ¬ CarefulCall r s (.setDst ip port fate) := fun hc => hport (hc hacc).1
    refine ⟨iff_of_false (fun hr => ?_) hcareful, (absurd · hcareful)⟩
    have hs := hr.2.refused (.inr (by omega))
    rw [heq] at hs
    have hdport := useDst_dport (recordDst s ip port dstip) specified fate
    rw [hs] at hdport
    exact hport (Nat.le_trans (Nat.le_of_eq hdport.symm) h.port)
  by_cases hsame : port = s.dport ∧ ip = s.dstIp
  · have heq : udpOutSetDst r s ip port fate = (s, true) := if_pos hsame
    rw [CallRight, udpOutStep, setRight_iff hacc hport, heq, CarefulCall, if_pos hsame]
    refine ⟨⟨fun hr _ => ⟨hport, fun hne ho => ?_⟩, fun hc => ⟨h.right, fun addr hread ho _ => ?_⟩⟩,
      fun _ => h⟩
    · have hread := h.named.resolve_right (hsame.2 ▸ hne)
      exact (hr.2 s.dstip (hsame.2 ▸ hread) ho rfl).1
    · have hne := ne_none_of_read hread
      have hstate := (hc hacc).2 hne ho
      refine ⟨hstate, ?_⟩
      rw [hsame.2] at hread hne
      cases hread.symm.trans (h.named.resolve_right hne)
      rw [hsame.1]
      exact (h.right.mp hstate).2
  · rw [CarefulCall, if_neg hsame]
    have hchanged := @changed_right r s ip port fate h hacc hsame hport
    exact ⟨hchanged.1.trans ⟨fun hc _ => ⟨hport, hc⟩, fun hc => (hc hacc).2⟩,
      fun hc => hchanged.2 (hc hacc).2⟩

theorem callRight_open (h : s.Sound r) :
    (CallRight r s (.open fate) ↔ CarefulCall r s (.open fate)) ∧
      (CarefulCall r s (.open fate) → (udpoutOpen s fate).1.Sound r) := by
  rw [CallRight, and_true, udpOutStep, CarefulCall]
  obtain ⟨hstate, hsock⟩ | ⟨hstate, -⟩ := h.states
  · have hset := settled_udpoutOpen h.port h.named hstate hsock fate
    exact ⟨hset.iff, hset.sound⟩
  · have hinit : s.state ≠ .init := by rw [hstate]; decide
    have heq : udpoutOpen s fate = (s, false) := if_pos hinit
    rw [heq]
    exact ⟨iff_of_true h.right fun hc => absurd hc hinit, fun _ => h⟩

/-- Over every run of a new interface, all calls are right exactly if all are careful. -/
theorem udpOutRun_right_iff (r : AddressReader) (ip : String) (port : Fin 65536)
    (delayOffload : Bool) (s : UdpOut) (hnew : newUdpOutInterface r ip port delayOffload = some s)
    (calls : List UdpOutCall) :
    EveryStep (udpOutStep r) (CallRight r) s calls ↔
      EveryStep (udpOutStep r) (CarefulCall r) s calls := by
  have hspec (s : UdpOut) (call : UdpOutCall) (h : s.Sound r) :
      (CallRight r s call ↔ CarefulCall r s call) ∧
        (CarefulCall r s call → (udpOutStep r s call).1.Sound r) := by
    cases call with
    | «open» fate => exact callRight_open h
    | setDst ip port fate => exact callRight_setDst h
  have hsound : s.Sound r := by
    unfold newUdpOutInterface at hnew
    have hport : (port : Nat) ≤ 65535 := by omega
    cases hread : r.read ip with
    | some dst =>
      rw [hread] at hnew
      cases hnew
      exact sound_closed hport (.inl hread) rfl rfl
    | none =>
      rw [hread] at hnew
      dsimp only at hnew
      split_ifs at hnew <;> cases hnew <;> exact sound_closed hport (.inr rfl) rfl rfl
  exact everyStep_iff_of_invariant (UdpOut.Sound r) _ _ (fun s call h => (hspec s call h).2)
    (fun s call h => (hspec s call h).1) hsound calls

def oneAddress : AddressReader where
  inetPton ip := if ip = "10.0.0.1" then some ⟨[10, 0, 0, 1], rfl⟩ else none
  inetPton6 _ := none
  none4 := by decide
  none6 := rfl

def toOneAddress : UdpOut :=
  ⟨.init, false, false, 0, none, "10.0.0.1", 6635, .inet, [10, 0, 0, 1]⟩

theorem udpOutRun_right_oneAddress :
    newUdpOutInterface oneAddress "10.0.0.1" 6635 false = some toOneAddress ∧
      EveryStep (udpOutStep oneAddress) (CallRight oneAddress) toOneAddress
        [.open ⟨some 5, true⟩] := by
  refine ⟨rfl, (udpOutRun_right_iff oneAddress "10.0.0.1" 6635 false toOneAddress rfl _).mpr ?_⟩
  exact ⟨fun _ _ _ => by decide, trivial⟩

/-- The interface cannot be opened, and the next notification is answered with true but does
not try again. -/
theorem repeated_destination_ignored :
    ¬ EveryStep (udpOutStep oneAddress) (CallRight oneAddress) toOneAddress
      [.open ⟨none, true⟩, .setDst "10.0.0.1" 6635 ⟨some 5, true⟩] := by
  rintro ⟨-, ⟨-, h⟩, -⟩
  cases (h.towards [10, 0, 0, 1] rfl rfl rfl).1

end Dnt
