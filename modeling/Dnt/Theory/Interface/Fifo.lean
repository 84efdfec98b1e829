import Dnt.Core.IfInternal
import Dnt.Library.Linked

/-!
# Internal Interfaces are First In, First Out

The threads around an internal interface own the nodes they work on, and the other
nodes are in the ring. With that, the links can be followed through every insertion
and every removal, in any interleaving. The receiver takes a packet without looking. It
may: the counter of the descriptor, the senders that are to write to it, and the receiver
between reading and taking are together at most as many as the nodes in the ring.

## Main definitions

* `IntFifo`: What holds between any two steps.
* `Relinked`: Two memories that differ in links only.

## Theorems

* `intRun_fifo`: In every run packets are received in the order in which they were sent, and
  no thread touches memory that is not there.
-/

namespace Dnt

open Function Crew

open List

variable {α : Type}
variable {m : FifoMemory α}

/-! ### Writing links -/

namespace FifoMemory

/-- Two memories that differ in links only, given the links of the second. -/
structure Relinked (m m' : FifoMemory α) (next prev : Nat → Option Nat) : Prop where
  next : m'.next = next
  prev : m'.prev = prev
  packet : m'.packet = m.packet
  live : ∀ a, (m' a).isSome = (m a).isSome

theorem setNext_spec (m : FifoMemory α) {a : Nat} (link : Option Nat) (h : (m a).isSome) :
    ∃ m', m.setNext a link = some m' ∧ Relinked m m' (update m.next a link) m.prev := by
  obtain ⟨node, hnode⟩ := Option.isSome_iff_exists.mp h
  refine ⟨_, by rw [setNext, hnode, Option.map_some], funext fun b => ?_, funext fun b => ?_,
    funext fun b => ?_, fun b => ?_⟩
  all_goals by_cases hb : b = a
  all_goals simp [next, prev, packet, hb, hnode]

theorem setPrev_spec (m : FifoMemory α) {a : Nat} (link : Option Nat) (h : (m a).isSome) :
    ∃ m', m.setPrev a link = some m' ∧ Relinked m m' m.next (update m.prev a link) := by
  obtain ⟨node, hnode⟩ := Option.isSome_iff_exists.mp h
  refine ⟨_, by rw [setPrev, hnode, Option.map_some], funext fun b => ?_, funext fun b => ?_,
    funext fun b => ?_, fun b => ?_⟩
  all_goals by_cases hb : b = a
  all_goals simp [next, prev, packet, hb, hnode]

theorem Relinked.trans {m' m'' : FifoMemory α} {next prev next' prev' : Nat → Option Nat}
    (h : Relinked m m' next prev) (h' : Relinked m' m'' next' prev') : Relinked m m'' next' prev' :=
  ⟨h'.next, h'.prev, h'.packet.trans h.packet, fun a => (h'.live a).trans (h.live a)⟩

end FifoMemory

open FifoMemory

variable {locked : Bool} {shared : IntIface α} {ring : List Nat} {a del i n pf recvfd : Nat} {p : α}

theorem packetfifoInsert_spec (h : Linked.IsRing m.next m.prev pf ring) (hn : n ∉ pf :: ring)
    (hlive : ∀ a ∈ n :: pf :: ring, (m a).isSome) :
    ∃ m', packetfifoInsert m pf n = some m' ∧ Linked.IsRing m'.next m'.prev pf (n :: ring) ∧
      m'.packet = m.packet ∧ ∀ a, (m' a).isSome = (m a).isSome := by
  have hring := h.insert hn
  obtain ⟨sentinel, hsentinel⟩ := Option.isSome_iff_exists.mp (hlive pf (by simp))
  have hnext : m.next pf = sentinel.next := by rw [FifoMemory.next, hsentinel]; rfl
  cases hfirst : sentinel.next with
  | some first =>
    rw [hnext, hfirst, Option.getD_some] at hring
    have hmem : first ∈ ring := by
      rw [h.first] at hnext
      exact mem_of_head? (hnext.trans hfirst)
    obtain ⟨m₁, h₁, r₁⟩ := m.setNext_spec (some first) (hlive n (by simp))
    obtain ⟨m₂, h₂, r₂⟩ := m₁.setPrev_spec (a := n) (some pf)
      (by rw [r₁.live]; exact hlive n (by simp))
    obtain ⟨m₃, h₃, r₃⟩ := m₂.setPrev_spec (a := first) (some n)
      (by rw [r₂.live, r₁.live]; exact hlive first (by simp [hmem]))
    obtain ⟨m₄, h₄, r₄⟩ := m₃.setNext_spec (a := pf) (some n)
      (by rw [r₃.live, r₂.live, r₁.live]; exact hlive pf (by simp))
    have hall := ((r₁.trans r₂).trans r₃).trans r₄
    refine ⟨m₄, ?_, ?_, hall.packet, hall.live⟩
    · simp [packetfifoInsert, hsentinel, hfirst, h₁, h₂, h₃, h₄]
    · rw [hall.next, hall.prev, r₃.next, r₂.next, r₁.next, r₃.prev, r₂.prev, r₁.prev]
      exact hring
  | none =>
    rw [hnext, hfirst, Option.getD_none] at hring
    obtain ⟨m₁, h₁, r₁⟩ := m.setNext_spec (some pf) (hlive n (by simp))
    obtain ⟨m₂, h₂, r₂⟩ := m₁.setPrev_spec (a := n) (some pf)
      (by rw [r₁.live]; exact hlive n (by simp))
    obtain ⟨m₃, h₃, r₃⟩ := m₂.setNext_spec (a := pf) (some n)
      (by rw [r₂.live, r₁.live]; exact hlive pf (by simp))
    obtain ⟨m₄, h₄, r₄⟩ := m₃.setPrev_spec (a := pf) (some n)
      (by rw [r₃.live, r₂.live, r₁.live]; exact hlive pf (by simp))
    have hall := ((r₁.trans r₂).trans r₃).trans r₄
    refine ⟨m₄, ?_, ?_, hall.packet, hall.live⟩
    · simp [packetfifoInsert, hsentinel, hfirst, h₁, h₂, h₃, h₄]
    · rw [hall.next, hall.prev, r₃.next, r₂.next, r₁.next, r₃.prev, r₂.prev, r₁.prev]
      exact hring

theorem packetfifoGet_spec (h : Linked.IsRing m.next m.prev pf (ring ++ [del]))
    (hlive : ∀ a ∈ pf :: ring ++ [del], (m a).isSome) :
    ∃ m', packetfifoGet m pf = some (m', some (del, m.packet del)) ∧
      Linked.IsRing m'.next m'.prev pf ring ∧ m'.packet = m.packet ∧
        ∀ a, (m' a).isSome = (m a).isSome := by
  obtain ⟨hprev, hnext, honly⟩ := h.last
  obtain ⟨sentinel, hsentinel⟩ := Option.isSome_iff_exists.mp (hlive pf (by simp))
  obtain ⟨node, hnode⟩ := Option.isSome_iff_exists.mp (hlive del (by simp))
  have hsprev : sentinel.prev = some del := by
    simpa only [FifoMemory.prev, hsentinel, Option.bind_some] using hprev
  have hsnext : m.next pf = sentinel.next := by rw [FifoMemory.next, hsentinel]; rfl
  have hpacket : m.packet del = node.p := by rw [FifoMemory.packet, hnode]; rfl
  rw [hsnext] at honly
  obtain rfl | ⟨front, before, rfl⟩ := ring.eq_nil_or_concat'
  · obtain ⟨m₁, h₁, r₁⟩ := m.setNext_spec none (hlive pf (by simp))
    obtain ⟨m₂, h₂, r₂⟩ := m₁.setPrev_spec (a := pf) none
      (by rw [r₁.live]; exact hlive pf (by simp))
    have hall := r₁.trans r₂
    refine ⟨m₂, ?_, ?_, hall.packet, hall.live⟩
    · simp [packetfifoGet, hsentinel, hsprev, hnode, honly.mpr rfl, h₁, h₂, hpacket]
    · rw [hall.next, hall.prev, r₁.next, r₁.prev]
      exact Linked.IsRing.cleared _ _ _
  · obtain ⟨hbefore, hring⟩ := h.remove
    have hnprev : node.prev = some before := by
      simpa only [FifoMemory.prev, hnode, Option.bind_some] using hbefore
    have hnnext : node.next = some pf := by
      simpa only [FifoMemory.next, hnode, Option.bind_some] using hnext
    have hdel : del ≠ before := by
      have hnodup := (nodup_append.mp (nodup_cons.mp h.nodup).2).2.2
      exact fun heq => hnodup before (by simp) del (by simp) heq.symm
    obtain ⟨m₁, h₁, r₁⟩ := m.setNext_spec (a := before) (some pf) (hlive before (by simp))
    obtain ⟨m₂, h₂, r₂⟩ := m₁.setPrev_spec (a := pf) (some before)
      (by rw [r₁.live]; exact hlive pf (by simp))
    have hall := r₁.trans r₂
    -- the links of the node itself are still the same after the first write
    have hnext₁ : m₁.next del = some pf := by rw [r₁.next, update_of_ne hdel, hnext]
    have hprev₁ : m₁.prev del = some before := by rw [r₁.prev, hbefore]
    have hmore : sentinel.next ≠ some del := fun heq => by simpa using honly.mp heq
    refine ⟨m₂, ?_, ?_, hall.packet, hall.live⟩
    · simp [packetfifoGet, hsentinel, hsprev, hnode, if_neg hmore, hnprev, hnnext, h₁, h₂, hnext₁,
        hprev₁, hpacket]
    · rw [hall.next, hall.prev, r₁.next, r₁.prev]
      exact hring

/-! ### The threads -/

/-- The node that a sender has allocated and not yet linked in, and its packet. -/
def IntSendAt.node? : IntSendAt α → Option (Nat × α)
  | .lock n p => some (n, p)
  | .link n p => some (n, p)
  | _ => none

/-- The packet is in the ring, and the descriptor does not know yet. -/
def IntSendAt.unposted : IntSendAt α → Bool
  | .unlock => true
  | .post => true
  | _ => false

def IntSendAt.faulty : IntSendAt α → Bool
  | .fault => true
  | _ => false

/-- The node that the receiver has taken out and not yet freed. -/
def IntRecvAt.node? : IntRecvAt α → Option Nat
  | .unlock (some (del, _)) => some del
  | .free del _ => some del
  | _ => none

/-- What the receiver has taken out, a null pointer included. -/
def IntRecvAt.inHand : IntRecvAt α → List (Option α)
  | .unlock none => [none]
  | .unlock (some (_, p)) => [p]
  | .free _ p => [p]
  | .process p => [p]
  | _ => []

/-- The receiver has read from the descriptor and not yet taken a packet. -/
def IntRecvAt.granted : IntRecvAt α → Bool
  | .check ok => ok
  | .lock => true
  | .take => true
  | _ => false

/-- The addresses of the nodes in the ring and of those that belong to a thread. -/
def intNodes (s : Crew (IntIface α) (IntSendAt α)) (ring : List Nat) : List Nat :=
  s.shared.fifo :: ring ++ s.shared.receiver.node?.toList ++
    (s.collect IntSendAt.node?).map Prod.fst

/-- What holds between any two steps, where the ring is given by its addresses. -/
structure IntFifo (s : Crew (IntIface α) (IntSendAt α)) (ring : List Nat) : Prop where
  wellFormed : Linked.IsRing s.shared.memory.next s.shared.memory.prev s.shared.fifo ring
  nodes : (intNodes s ring).Nodup
  live : ∀ a ∈ intNodes s ring, (s.shared.memory a).isSome
  packets : ∀ x ∈ s.collect IntSendAt.node?, s.shared.memory.packet x.1 = some x.2
  order : s.shared.received.map some ++ s.shared.receiver.inHand ++
    ring.reverse.map s.shared.memory.packet = s.shared.inserted.map some
  counted : s.shared.recvfd + s.count IntSendAt.unposted + s.shared.receiver.granted.toNat ≤
    ring.length
  senders : s.count IntSendAt.faulty = 0
  receiver : s.shared.receiver ≠ .fault
  unopened : s.shared.state = .init → s.shared.receiver = .absent

section

variable {s : Crew (IntIface α) (IntSendAt α)} {ring : List Nat}

/-- Steps that leave the memory alone. Nodes stay with who has them, and the descriptor
does not count more than before. -/
theorem IntFifo.keep (h : IntFifo s ring) {t : Crew (IntIface α) (IntSendAt α)}
    (hmemory : t.shared.memory = s.shared.memory) (hfifo : t.shared.fifo = s.shared.fifo)
    (hinserted : t.shared.inserted = s.shared.inserted)
    (hcollect : (t.collect IntSendAt.node?).Perm (s.collect IntSendAt.node?))
    (hnode : t.shared.receiver.node? = s.shared.receiver.node?)
    (horder : t.shared.received.map some ++ t.shared.receiver.inHand =
      s.shared.received.map some ++ s.shared.receiver.inHand)
    (hcounted : t.shared.recvfd + t.count IntSendAt.unposted + t.shared.receiver.granted.toNat ≤
      s.shared.recvfd + s.count IntSendAt.unposted + s.shared.receiver.granted.toNat)
    (hsenders : t.count IntSendAt.faulty = 0) (hreceiver : t.shared.receiver ≠ .fault)
    (hunopened : t.shared.state = .init → t.shared.receiver = .absent) : IntFifo t ring := by
  have hnodes : (intNodes t ring).Perm (intNodes s ring) := by
    rw [intNodes, intNodes, hfifo, hnode]
    exact (hcollect.map _).append_left _
  refine ⟨?_, hnodes.nodup_iff.mpr h.nodes, ?_, ?_, ?_, Nat.le_trans hcounted h.counted, hsenders,
    hreceiver, hunopened⟩
  · rw [hmemory, hfifo]
    exact h.wellFormed
  · intro a ha
    rw [hmemory]
    exact h.live a (hnodes.mem_iff.mp ha)
  · intro x hx
    rw [hmemory]
    exact h.packets x (hcollect.mem_iff.mp hx)
  · rw [horder, hmemory, hinserted]
    exact h.order

theorem IntFifo.keep_send (h : IntFifo s ring) {c : IntSendAt α} (c' : IntSendAt α)
    (hshared : shared = { s.shared with locked := locked, recvfd := recvfd })
    (hc : s.calls[i]? = some c) (hnode : c'.node? = c.node?)
    (hcounted : recvfd + c'.unposted.toNat ≤ s.shared.recvfd + c.unposted.toNat)
    (hfaulty : c'.faulty = false) : IntFifo ⟨shared, s.calls.set i c'⟩ ring := by
  have hcollect := collect_move shared c' IntSendAt.node? hc
  have hunposted := count_move shared c' IntSendAt.unposted hc
  have hsafe := count_move shared c' IntSendAt.faulty hc
  have hsenders := h.senders
  rw [hnode] at hcollect
  rw [hfaulty, Bool.toNat_false] at hsafe
  subst hshared
  refine h.keep rfl rfl rfl ((perm_append_left_iff _).mp hcollect) rfl rfl ?_ ?_
    h.receiver h.unopened
  · dsimp only at hunposted ⊢
    omega
  · dsimp only at hsafe ⊢
    omega

theorem IntFifo.keep_recv (h : IntFifo s ring) {c c' : IntRecvAt α} {received : List α}
    (hc : s.shared.receiver = c) (hshared : shared = { s.shared with
      locked := locked, recvfd := recvfd, receiver := c', received := received })
    (hpresent : c ≠ .absent) (hnode : c'.node? = c.node?)
    (horder : received.map some ++ c'.inHand = s.shared.received.map some ++ c.inHand)
    (hcounted : recvfd + c'.granted.toNat ≤ s.shared.recvfd + c.granted.toNat)
    (hreceiver : c' ≠ .fault) : IntFifo ⟨shared, s.calls⟩ ring := by
  subst hshared hc
  refine h.keep rfl rfl rfl (List.Perm.refl _) hnode horder ?_ h.senders hreceiver
    (fun hinit => absurd (h.unopened hinit) hpresent)
  simp only [Crew.count]
  omega

theorem FifoMemory.isRing_update (h : Linked.IsRing m.next m.prev pf ring) (ha : a ∉ pf :: ring)
    (node : Option (PacketFifo α)) : Linked.IsRing (FifoMemory.next (update m a node))
      (FifoMemory.prev (update m a node)) pf ring := by
  have hne : ∀ x ∈ pf :: ring, update m a node x = m x := fun x hx =>
    update_of_ne (fun heq : x = a => ha (heq ▸ hx)) _ _
  refine h.congr (fun x hx => ?_) (fun x hx => ?_)
  · rw [FifoMemory.next, hne x hx, FifoMemory.next]
  · rw [FifoMemory.prev, hne x hx, FifoMemory.prev]

theorem FifoMemory.packet_update_of_ne (m : FifoMemory α) {x : Nat} (hx : x ≠ a)
    (node : Option (PacketFifo α)) : FifoMemory.packet (update m a node) x = m.packet x := by
  rw [FifoMemory.packet, update_of_ne hx, FifoMemory.packet]

theorem mem_intNodes_of_ring (ha : a ∈ s.shared.fifo :: ring) : a ∈ intNodes s ring :=
  mem_append_left _ (mem_append_left _ ha)

theorem mem_intNodes_of_sender {x : Nat × α} (hx : x ∈ s.collect IntSendAt.node?) :
    x.1 ∈ intNodes s ring :=
  mem_append_right _ (mem_map_of_mem hx)

theorem intFifo_alloc (h : IntFifo s ring) (hshared : shared = { s.shared with
      memory := update s.shared.memory a (some ⟨some p, none, none⟩) })
    (hc : s.calls[i]? = some (.alloc p)) (ha : (s.shared.memory a).isSome = false) :
    IntFifo ⟨shared, s.calls.set i (.lock a p)⟩ ring := by
  have hfresh : a ∉ intNodes s ring := by
    intro hmem
    rw [h.live a hmem] at ha
    cases ha
  have hcollect : (collect ⟨shared, s.calls.set i (.lock a p)⟩ IntSendAt.node?).Perm
      ((a, p) :: s.collect IntSendAt.node?) :=
    collect_move shared (IntSendAt.lock a p) IntSendAt.node? hc
  have hunposted := count_move shared (IntSendAt.lock a p) IntSendAt.unposted hc
  have hsafe := count_move shared (IntSendAt.lock a p) IntSendAt.faulty hc
  have hnodes : (intNodes ⟨shared, s.calls.set i (.lock a p)⟩ ring).Perm
      (a :: intNodes s ring) := by
    subst hshared
    exact ((hcollect.map Prod.fst).append_left _).trans perm_middle
  refine ⟨?_, ?_, ?_, ?_, ?_, ?_, ?_, ?_, ?_⟩
  · subst hshared
    exact isRing_update h.wellFormed (fun hmem => hfresh (mem_intNodes_of_ring hmem)) _
  · exact hnodes.nodup_iff.mpr (nodup_cons.mpr ⟨hfresh, h.nodes⟩)
  · intro x hx
    subst hshared
    obtain rfl | hmem := mem_cons.mp (hnodes.mem_iff.mp hx)
    · simp
    · have hne : x ≠ a := fun heq => hfresh (heq ▸ hmem)
      simpa only [update_of_ne hne] using h.live x hmem
  · intro x hx
    subst hshared
    obtain rfl | hmem := mem_cons.mp (hcollect.mem_iff.mp hx)
    · simp [FifoMemory.packet]
    · have hne : x.1 ≠ a := fun heq => hfresh (heq ▸ mem_intNodes_of_sender hmem)
      rw [packet_update_of_ne _ hne]
      exact h.packets x hmem
  · subst hshared
    refine Eq.trans ?_ h.order
    refine congrArg _ (map_congr_left fun x hx => packet_update_of_ne _ ?_ _)
    exact fun heq => hfresh (heq ▸ mem_intNodes_of_ring
      (mem_cons_of_mem _ (mem_reverse.mp hx)))
  · have hcounted := h.counted
    subst hshared
    simp only [IntSendAt.unposted, Bool.toNat_false] at hunposted ⊢
    omega
  · have hsenders := h.senders
    simp only [IntSendAt.faulty, Bool.toNat_false] at hsafe
    omega
  · subst hshared
    exact h.receiver
  · subst hshared
    exact h.unopened

theorem intFifo_link (h : IntFifo s ring) (hc : s.calls[i]? = some (.link n p)) :
    ∃ memory, packetfifoInsert s.shared.memory s.shared.fifo n = some memory ∧
      ∀ shared, shared = { s.shared with memory := memory, inserted := s.shared.inserted ++ [p] } →
        IntFifo ⟨shared, s.calls.set i .unlock⟩ (n :: ring) := by
  have hmem : (n, p) ∈ s.collect IntSendAt.node? :=
    mem_filterMap.mpr ⟨_, mem_of_getElem? hc, rfl⟩
  have hapart : n ∉ s.shared.fifo :: ring := by
    intro hn
    have hdisjoint := (nodup_append.mp h.nodes).2.2
    exact hdisjoint n (mem_append_left _ hn) n (mem_map_of_mem hmem) rfl
  obtain ⟨memory, hmemory, hring, hpacket, hlive⟩ := packetfifoInsert_spec h.wellFormed hapart
    (forall_mem_cons.mpr ⟨h.live n (mem_intNodes_of_sender hmem),
      fun a ha => h.live a (mem_intNodes_of_ring ha)⟩)
  refine ⟨memory, hmemory, fun shared hshared => ?_⟩
  have hcollect : ((n, p) :: collect ⟨shared, s.calls.set i .unlock⟩
      IntSendAt.node?).Perm (s.collect IntSendAt.node?) :=
    collect_move shared IntSendAt.unlock IntSendAt.node? hc
  have hunposted := count_move shared IntSendAt.unlock IntSendAt.unposted hc
  have hsafe := count_move shared IntSendAt.unlock IntSendAt.faulty hc
  -- the node was the sender's, and is in the ring now
  have hnodes : (intNodes ⟨shared, s.calls.set i .unlock⟩ (n :: ring)).Perm
      (intNodes s ring) := by
    subst hshared
    refine List.Perm.trans ?_ ((hcollect.map Prod.fst).append_left _)
    refine List.Perm.trans ?_ perm_middle.symm
    exact List.Perm.swap _ _ _
  refine ⟨?_, hnodes.nodup_iff.mpr h.nodes, ?_, ?_, ?_, ?_, ?_, ?_, ?_⟩
  · subst hshared
    exact hring
  · intro a ha
    subst hshared
    rw [hlive a]
    exact h.live a (hnodes.mem_iff.mp ha)
  · intro x hx
    subst hshared
    rw [hpacket]
    exact h.packets x (hcollect.mem_iff.mp (mem_cons_of_mem _ hx))
  · subst hshared
    have horder := h.order
    simp only [reverse_cons, map_append, map_cons, map_nil, hpacket,
      h.packets _ hmem]
    rw [← append_assoc, horder]
  · have hcounted := h.counted
    subst hshared
    simp only [IntSendAt.unposted, Bool.toNat_true, Bool.toNat_false, length_cons]
      at hunposted ⊢
    omega
  · have hsenders := h.senders
    simp only [IntSendAt.faulty, Bool.toNat_false] at hsafe
    omega
  · subst hshared
    exact h.receiver
  · subst hshared
    exact h.unopened

theorem intFifo_sendMove (h : IntFifo s ring) {c : IntSendAt α} (x : IntChoice)
    (hc : s.calls[i]? = some c) :
    ∃ ring', IntFifo ⟨(intSendMove s.shared c x).1, s.calls.set i (intSendMove s.shared c x).2⟩
      ring' := by
  cases c with
  | check headerCount p =>
    refine ⟨ring, ?_⟩
    simp only [intSendMove]
    split_ifs
    all_goals exact h.keep_send _ rfl hc rfl (Nat.le_refl _) rfl
  | alloc p =>
    refine ⟨ring, ?_⟩
    simp only [intSendMove]
    split_ifs with hlive
    · exact h.keep_send _ rfl hc rfl (Nat.le_refl _) rfl
    · exact intFifo_alloc h rfl hc (Bool.not_eq_true _ ▸ hlive)
  | lock n p =>
    refine ⟨ring, ?_⟩
    simp only [intSendMove]
    split_ifs
    all_goals exact h.keep_send _ rfl hc rfl (Nat.le_refl _) rfl
  | link n p =>
    obtain ⟨memory, hmemory, hnext⟩ := intFifo_link h hc
    refine ⟨n :: ring, ?_⟩
    simp only [intSendMove, hmemory]
    exact hnext _ rfl
  | unlock => exact ⟨ring, h.keep_send _ rfl hc rfl (Nat.le_refl _) rfl⟩
  | post =>
    refine ⟨ring, h.keep_send (.sent true) rfl hc rfl ?_ rfl⟩
    simp only [IntSendAt.unposted, Bool.toNat_true, Bool.toNat_false]
    split_ifs
    · omega
    · omega
  | sent ok => exact ⟨ring, h.keep_send _ rfl hc rfl (Nat.le_refl _) rfl⟩
  | fault =>
    have hpos := count_pos (p := IntSendAt.faulty) hc rfl
    exact absurd h.senders (Nat.ne_of_gt hpos)

theorem intFifo_take (h : IntFifo s ring) (hat : s.shared.receiver = .take) : ∃ memory del p rest,
      packetfifoGet s.shared.memory s.shared.fifo = some (memory, some (del, p)) ∧
      ∀ shared, shared = { s.shared with memory := memory, receiver := .unlock (some (del, p)) } →
        IntFifo ⟨shared, s.calls⟩ rest := by
  have hcounted := h.counted
  have horder := h.order
  rw [hat] at hcounted horder
  simp only [IntRecvAt.granted, Bool.toNat_true] at hcounted
  obtain rfl | ⟨rest, del, rfl⟩ := ring.eq_nil_or_concat'
  · rw [length_nil] at hcounted
    omega
  obtain ⟨memory, hmemory, hring, hpacket, hlive⟩ := packetfifoGet_spec h.wellFormed
    (fun a ha => h.live a (mem_intNodes_of_ring ha))
  refine ⟨memory, del, _, rest, hmemory, fun shared hshared => ?_⟩
  have hnodes : intNodes ⟨shared, s.calls⟩ rest = intNodes s (rest ++ [del]) := by
    subst hshared
    simp [intNodes, hat, IntRecvAt.node?, collect]
  subst hshared
  refine ⟨hring, hnodes ▸ h.nodes, ?_, ?_, ?_, ?_, h.senders, ?_, ?_⟩
  · intro a ha
    rw [hlive a]
    exact h.live a (hnodes ▸ ha)
  · intro x hx
    rw [hpacket]
    exact h.packets x hx
  · rw [hpacket, ← horder]
    simp [IntRecvAt.inHand]
  · simp only [IntRecvAt.granted, Bool.toNat_false, Crew.count, length_append,
      length_singleton] at hcounted ⊢
    omega
  · intro hfault
    cases hfault
  · intro hinit
    have := h.unopened hinit
    rw [hat] at this
    cases this

theorem intFifo_free (h : IntFifo s ring) {p : Option α} (hshared : shared = { s.shared with
      memory := update s.shared.memory del none, receiver := .process p })
    (hat : s.shared.receiver = .free del p) : IntFifo ⟨shared, s.calls⟩ ring := by
  have hnodes : (intNodes s ring).Perm (del :: intNodes ⟨shared, s.calls⟩ ring) := by
    subst hshared
    simp only [intNodes, hat, IntRecvAt.node?, Option.toList_some, Option.toList_none,
      append_nil, append_assoc, singleton_append]
    exact perm_middle
  obtain ⟨hfree, hnodup⟩ := nodup_cons.mp (hnodes.nodup_iff.mp h.nodes)
  have hcounted := h.counted
  have horder := h.order
  rw [hat] at hcounted horder
  subst hshared
  refine ⟨?_, hnodup, ?_, ?_, ?_, hcounted, h.senders, nofun, ?_⟩
  · exact isRing_update h.wellFormed (fun hmem => hfree (mem_intNodes_of_ring hmem)) _
  · intro a ha
    have hne : a ≠ del := fun heq => hfree (heq ▸ ha)
    simpa only [update_of_ne hne] using
      h.live a (hnodes.mem_iff.mpr (mem_cons_of_mem _ ha))
  · intro x hx
    have hne : x.1 ≠ del := fun heq => hfree (heq ▸ mem_intNodes_of_sender hx)
    rw [packet_update_of_ne _ hne]
    exact h.packets x hx
  · refine Eq.trans ?_ horder
    refine congrArg _ (map_congr_left fun x hx => packet_update_of_ne _ ?_ _)
    exact fun heq => hfree (heq ▸ mem_intNodes_of_ring
      (mem_cons_of_mem _ (mem_reverse.mp hx)))
  · intro hinit
    have := h.unopened hinit
    rw [hat] at this
    cases this

theorem IntFifo.inHand_ne_none (h : IntFifo s ring) : none ∉ s.shared.receiver.inHand := by
  intro hmem
  have hnone : (none : Option α) ∈ s.shared.inserted.map some := by
    rw [← h.order]
    exact mem_append_left _ (mem_append_right _ hmem)
  obtain ⟨p, -, hp⟩ := mem_map.mp hnone
  cases hp

theorem intFifo_recvMove (h : IntFifo s ring) (ok : Bool) :
    ∃ ring', IntFifo ⟨intRecvMove s.shared ok, s.calls⟩ ring' := by
  have hinHand := h.inHand_ne_none
  -- the ring only changes where a packet is taken
  cases hat : s.shared.receiver with
  | absent | stopped =>
    simp only [intRecvMove, hat]
    exact ⟨ring, h⟩
  | fault => exact absurd hat h.receiver
  | loop =>
    simp only [intRecvMove, hat]
    split_ifs
    all_goals exact ⟨ring, h.keep_recv hat rfl nofun rfl rfl (Nat.le_refl _) nofun⟩
  | wait =>
    simp only [intRecvMove, hat]
    split_ifs with hok hzero
    · exact ⟨ring, h.keep_recv hat rfl nofun rfl rfl (Nat.le_refl _) nofun⟩
    · exact ⟨ring, h⟩
    · refine ⟨ring, h.keep_recv hat rfl nofun rfl rfl ?_ nofun⟩
      simp only [IntRecvAt.granted, Bool.toNat_true, Bool.toNat_false]
      omega
  | check ok =>
    simp only [intRecvMove, hat]
    split_ifs with hshutdown hok
    · exact ⟨ring, h.keep_recv hat rfl nofun rfl rfl (Nat.le_add_right _ _) nofun⟩
    · exact ⟨ring, h.keep_recv hat rfl nofun rfl rfl (Nat.le_add_right _ _) nofun⟩
    · rw [Bool.not_eq_false] at hok
      subst hok
      exact ⟨ring, h.keep_recv hat rfl nofun rfl rfl (Nat.le_refl _) nofun⟩
  | lock =>
    simp only [intRecvMove, hat]
    split_ifs
    · exact ⟨ring, h⟩
    · exact ⟨ring, h.keep_recv hat rfl nofun rfl rfl (Nat.le_refl _) nofun⟩
  | take =>
    obtain ⟨memory, del, p, rest, hmemory, hnext⟩ := intFifo_take h hat
    refine ⟨rest, ?_⟩
    simp only [intRecvMove, hat, hmemory]
    exact hnext _ rfl
  | unlock taken =>
    cases taken with
    | none =>
      rw [hat] at hinHand
      exact absurd (mem_singleton_self none) hinHand
    | some taken =>
      simp only [intRecvMove, hat]
      exact ⟨ring, h.keep_recv hat rfl nofun rfl rfl (Nat.le_refl _) nofun⟩
  | free del p =>
    simp only [intRecvMove, hat]
    exact ⟨ring, intFifo_free h rfl hat⟩
  | process p =>
    cases p with
    | none =>
      rw [hat] at hinHand
      exact absurd (mem_singleton_self none) hinHand
    | some p =>
      simp only [intRecvMove, hat]
      refine ⟨ring, h.keep_recv hat rfl nofun rfl ?_ (Nat.le_refl _) nofun⟩
      simp [IntRecvAt.inHand]

theorem intFifo_open (h : IntFifo s ring) : IntFifo ⟨intOpen s.shared, s.calls⟩ ring := by
  unfold intOpen
  split_ifs with hinit
  · have hat := h.unopened hinit
    refine h.keep rfl rfl rfl (List.Perm.refl _) ?_ ?_ ?_ h.senders nofun nofun
    · rw [hat]
      rfl
    · rw [hat]
      rfl
    · rw [hat]
      simp [IntRecvAt.granted, Crew.count]
  · exact h

theorem intFifo_step (h : IntFifo s ring) (e : IntEvent α) :
    ∃ ring', IntFifo (intStep s e).1 ring' := by
  cases e with
  | send headerCount p =>
    have hcollect := collect_start (s := s) s.shared (.check headerCount p) IntSendAt.node?
    have hunposted := count_start (s := s) s.shared (.check headerCount p)
      IntSendAt.unposted
    have hfaulty := count_start (s := s) s.shared (.check headerCount p) IntSendAt.faulty
    refine ⟨ring, h.keep rfl rfl rfl ?_ rfl rfl ?_ ?_ h.receiver h.unopened⟩
    · rw [intStep, step_start, hcollect]
      simp [IntSendAt.node?]
    · rw [intStep, step_start, hunposted]
      exact Nat.le_refl _
    · rw [intStep, step_start, hfaulty, h.senders]
      rfl
  | move i x =>
    simp only [intStep]
    cases hc : s.calls[i]? with
    | none =>
      rw [step_move_none x hc]
      exact ⟨ring, h⟩
    | some c =>
      rw [step_move x hc]
      exact intFifo_sendMove h x hc
  | recv ok => exact intFifo_recvMove h ok
  | launch => exact ⟨ring, intFifo_open h⟩
  | shutdown =>
    exact ⟨ring, h.keep rfl rfl rfl (List.Perm.refl _) rfl rfl (Nat.le_refl _) h.senders
      h.receiver nofun⟩

end

theorem intFifo_new (pf : Nat) : IntFifo (newInternalInterface (α := α) pf) [] := by
  refine ⟨⟨nodup_singleton _, fun _ => ⟨?_, ?_⟩, fun hne => absurd rfl hne⟩,
    nodup_singleton _, ?_, nofun, rfl, Nat.le_refl _, rfl, nofun, fun _ => rfl⟩
  · simp [newInternalInterface, newPacketfifo, FifoMemory.next]
  · simp [newInternalInterface, newPacketfifo, FifoMemory.prev]
  · intro a ha
    rw [mem_singleton.mp ha]
    simp [newInternalInterface, newPacketfifo]

/-- The ring as one can see it from the sentinel: the links are inverse to each other,
and they lead through these nodes, one way and the other. The empty ring has no
links. -/
structure RingVisits (m : FifoMemory α) (pf : Nat) (ring : List Nat) : Prop where
  nodup : (pf :: ring).Nodup
  empty : ring = [] → m.next pf = none ∧ m.prev pf = none
  inverse : ring ≠ [] → ∀ a ∈ pf :: ring,
    (m.next a).bind m.prev = some a ∧ (m.prev a).bind m.next = some a
  forward : ring ≠ [] → Linked.walk m.next (ring.length + 1) pf = ring ++ [pf]
  backward : ring ≠ [] → Linked.walk m.prev (ring.length + 1) pf = ring.reverse ++ [pf]

theorem IntFifo.ringVisits {s : Crew (IntIface α) (IntSendAt α)} (h : IntFifo s ring) :
    RingVisits s.shared.memory s.shared.fifo ring :=
  ⟨h.wellFormed.nodup, h.wellFormed.empty,
    fun hne _ ha => ⟨h.wellFormed.next_prev hne ha, h.wellFormed.prev_next hne ha⟩,
    h.wellFormed.walk_next, h.wellFormed.walk_prev⟩

/-- After any run the ring is well formed. The packets processed so far, the one that the
receiver has and those in the ring are the packets that were sent, in this order. No
thread touches memory that is not there, and the receiver always finds a packet. -/
theorem intRun_fifo (pf : Nat) (es : List (IntEvent α)) :
    ∃ ring : List Nat,
      RingVisits (intRun pf es).shared.memory (intRun pf es).shared.fifo ring ∧
      (intRun pf es).shared.received.map some ++ (intRun pf es).shared.receiver.inHand ++
          ring.reverse.map (intRun pf es).shared.memory.packet =
        (intRun pf es).shared.inserted.map some ∧
      (intRun pf es).count IntSendAt.faulty = 0 ∧ (intRun pf es).shared.receiver ≠ .fault ∧
      ((intRun pf es).shared.receiver = .take → ring ≠ []) := by
  have hinv : ∃ ring, IntFifo (intRun pf es) ring := by
    refine Mealy.final_invariant (fun s => ∃ ring, IntFifo s ring) ?_ ⟨[], intFifo_new pf⟩ es
    exact fun s e ⟨ring, h⟩ => intFifo_step h e
  obtain ⟨ring, h⟩ := hinv
  refine ⟨ring, h.ringVisits, h.order, h.senders, h.receiver, fun hat hempty => ?_⟩
  have hcounted := h.counted
  rw [hat, hempty] at hcounted
  simp only [IntRecvAt.granted, Bool.toNat_true, length_nil] at hcounted
  omega

end Dnt
