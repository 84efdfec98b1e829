import Mathlib.Data.List.Pairwise
import Mathlib.Data.List.Sort
import Dnt.Core.Pof

/-!
# Forwarding

What a call of the forwarding loop does to the buffer. With the timeout bit set, the
first packet goes out whatever its number is. From then on the loop takes packets
from the head as long as they are not too early. `next_to_forward` may dangle while
the loop runs, so it is not part of the invariant here.

## Main definitions

* `BufferOk`: The buffer is sorted, and `queue_len` is its length.
* `OrderlyFrom`: Packets are forwarded from the head as long as they are in order.

## Theorems

* `pofTryForward_cases`: A call is orderly from the start, or behind one packet that goes out
  because of a timeout.
-/

namespace Dnt

variable {ι : Type*}
variable {pof : Pof ι} {pe : PofElem ι}

def SeqLe (a b : PofElem ι) : Prop :=
  a.seq ≤ b.seq

instance : DecidableRel (@SeqLe ι) :=
  fun a b => inferInstanceAs (Decidable (a.seq ≤ b.seq))

instance : Std.Total (@SeqLe ι) :=
  ⟨fun a b => Nat.le_total a.seq b.seq⟩

instance : IsTrans (PofElem ι) SeqLe :=
  ⟨fun _ _ _ => Nat.le_trans⟩

open List

theorem pofLink_eq_orderedInsert (pe : PofElem ι) (l : List (PofElem ι)) :
    pofLink pe l = l.orderedInsert SeqLe pe := by
  induction l with
  | nil => rfl
  | cons iter rest ih =>
    unfold pofLink
    rw [orderedInsert_cons]
    by_cases hlt : iter.seq < pe.seq
    · have hle : ¬ SeqLe pe iter := Nat.not_le_of_lt hlt
      rw [if_pos hlt, if_neg hle, ih]
    · have hle : SeqLe pe iter := Nat.le_of_not_lt hlt
      rw [if_neg hlt, if_pos hle]

/-- The buffer is sorted, `queue_len` is its length, and its elements are
different objects. -/
structure BufferOk (pof : Pof ι) : Prop where
  sorted : pof.queue.Pairwise SeqLe
  length : pof.queueLen = pof.queue.length
  fresh : ∀ pe ∈ pof.queue, pe.addr < pof.nextAddr
  distinct : pof.queue.Pairwise fun a b => a.addr ≠ b.addr

theorem BufferOk.read (h : BufferOk pof) : BufferOk { pof with evfd := 0 } :=
  ⟨h.sorted, h.length, h.fresh, h.distinct⟩

theorem BufferOk.queueLen_eq_zero_iff (h : BufferOk pof) : pof.queueLen = 0 ↔ pof.queue = [] := by
  rw [h.length, length_eq_zero_iff]

theorem eq_of_addr_eq {l : List (PofElem ι)} (h : l.Pairwise fun a b => a.addr ≠ b.addr)
    {a b : PofElem ι} (ha : a ∈ l) (hb : b ∈ l) (hab : a.addr = b.addr) : a = b := by
  have hsymm : Std.Symm fun a b : PofElem ι => a.addr ≠ b.addr := ⟨fun _ _ hne => hne.symm⟩
  by_contra hne
  exact h.forall ha hb hne hab

theorem perm_eraseP_addr {l : List (PofElem ι)} (h : l.Pairwise fun a b => a.addr ≠ b.addr)
    (hpe : pe ∈ l) : l.Perm (pe :: l.eraseP fun iter => iter.addr = pe.addr) := by
  have hfound : decide (pe.addr = pe.addr) = true := decide_eq_true rfl
  rcases @List.exists_of_eraseP _ (fun iter => decide (iter.addr = pe.addr)) l pe hpe hfound with
    ⟨a, l₁, l₂, _, ha, hl, herase⟩
  have hmem : a ∈ l := by
    rw [hl]
    exact mem_append_right _ mem_cons_self
  -- the element found has the address of `pe`, so it is `pe`
  have hsame : a = pe := eq_of_addr_eq h hmem hpe (of_decide_eq_true ha)
  rw [herase, ← hsame]
  calc l = l₁ ++ a :: l₂ := hl
    List.Perm _ (a :: (l₁ ++ l₂)) := perm_middle

/-- The object after one packet was forwarded and taken out of the buffer. -/
def pofSent (pof : Pof ι) (takeAny : Bool) (pe : PofElem ι) : Pof ι :=
  pofPopItem (pofForward { pof with takeAny := takeAny } pe) pe

theorem pofSent_eq (pof : Pof ι) (takeAny : Bool) (pe : PofElem ι) (hok : BufferOk pof)
    (hpe : pe ∈ pof.queue) :
    pofSent pof takeAny pe =
      { pof with
        takeAny := takeAny
        lastSent := max pof.lastSent pe.seq
        queue := pof.queue.eraseP fun iter => iter.addr = pe.addr
        queueLen := pof.queueLen - 1 } := by
  have hne : ¬ pof.queue.isEmpty = true := by grind
  have hpos : ¬ pof.queueLen = 0 := by
    rw [hok.length]
    exact Nat.ne_of_gt (length_pos_of_mem hpe)
  -- the element is in the list, so neither guard of `pof_pop_item` applies
  unfold pofSent pofForward
  by_cases hgt : pe.seq > pof.lastSent
  · rw [if_pos hgt, Nat.max_eq_right (Nat.le_of_lt hgt)]
    unfold pofPopItem
    rw [if_neg hne, if_neg hpos]
  · rw [if_neg hgt, Nat.max_eq_left (Nat.le_of_not_lt hgt)]
    unfold pofPopItem
    rw [if_neg hne, if_neg hpos]

/-- What is left of the buffer after some packets were forwarded. -/
structure Drained (pof : Pof ι) (r : Pof ι × List (Forwarding ι)) : Prop where
  ok : BufferOk r.1
  perm : pof.queue.Perm (r.2.map Forwarding.pe ++ r.1.queue)
  nextAddr : r.1.nextAddr = pof.nextAddr
  queueMaxLen : r.1.queueMaxLen = pof.queueMaxLen
  evfd : r.1.evfd = pof.evfd

theorem drained_nil (hok : BufferOk pof) : Drained pof (pof, []) :=
  ⟨hok, List.Perm.refl _, rfl, rfl, rfl⟩

theorem drained_cons (pof : Pof ι) (takeAny : Bool) (pe : PofElem ι) (hok : BufferOk pof)
    (hpe : pe ∈ pof.queue) (r : Pof ι × List (Forwarding ι))
    (hrest : Drained (pofSent pof takeAny pe) r) :
    Drained pof (r.1, ⟨pof, pe⟩ :: r.2) := by
  have hperm := hrest.perm
  have haddr := hrest.nextAddr
  have hmax := hrest.queueMaxLen
  have hevfd := hrest.evfd
  rw [pofSent_eq pof takeAny pe hok hpe] at hperm haddr hmax hevfd
  refine ⟨hrest.ok, ?_, haddr, hmax, hevfd⟩
  exact (perm_eraseP_addr hok.distinct hpe).trans (hperm.cons pe)

theorem pofSent_ok (pof : Pof ι) (takeAny : Bool) (pe : PofElem ι) (hok : BufferOk pof)
    (hpe : pe ∈ pof.queue) : BufferOk (pofSent pof takeAny pe) := by
  have hsub : (pof.queue.eraseP fun iter => iter.addr = pe.addr).Sublist pof.queue :=
    eraseP_sublist
  rw [pofSent_eq pof takeAny pe hok hpe]
  refine ⟨hok.sorted.sublist hsub, ?_, ?_, hok.distinct.sublist hsub⟩
  · have hlen := (perm_eraseP_addr hok.distinct hpe).length_eq
    rw [length_cons, ← hok.length] at hlen
    exact (Nat.eq_sub_of_add_eq hlen.symm).symm
  · intro e he
    exact hok.fresh e (hsub.subset he)

/-- The packet is not too early. -/
def InOrder (f : Forwarding ι) : Prop :=
  f.pe.seq ≤ f.pof.lastSent + 1

/-- No buffered packet has a smaller number. -/
def Lowest (f : Forwarding ι) : Prop :=
  ∀ e ∈ f.pof.queue, f.pe.seq ≤ e.seq

/-- Nothing in the buffer can be forwarded yet. -/
def Idle (pof : Pof ι) : Prop :=
  ∀ pe ∈ pof.queue.head?, pof.lastSent + 1 < pe.seq

/-- The result of the loop when it takes packets from the head of the
buffer. -/
structure OrderlyFrom (pof : Pof ι) (r : Pof ι × List (Forwarding ι)) : Prop
    extends Drained pof r where
  idle : Idle r.1
  orderly : ∀ f ∈ r.2, InOrder f ∧ Lowest f

theorem lowest_head (pof : Pof ι) (hok : BufferOk pof) (pe : PofElem ι)
    (hpe : pof.queue.head? = some pe) : Lowest ⟨pof, pe⟩ := by
  rcases head?_eq_some_iff.mp hpe with ⟨rest, hqueue⟩
  have hsorted := hok.sorted
  unfold Lowest
  simp only [hqueue] at hsorted ⊢
  intro e he
  rcases mem_cons.mp he with rfl | he
  · exact Nat.le_refl _
  · exact (pairwise_cons.mp hsorted).1 e he

theorem idle_of_nil (pof : Pof ι) (h : pof.queue = []) : Idle pof := by
  intro pe hpe
  rw [h] at hpe
  exact absurd hpe (Option.some_ne_none pe).symm

theorem orderlyFrom_nil (pof : Pof ι) (hok : BufferOk pof) (hidle : Idle pof) :
    OrderlyFrom pof (pof, []) := by
  refine ⟨drained_nil hok, hidle, ?_⟩
  intro f hf
  exact absurd hf not_mem_nil

theorem tryForwardLoop_cases (n : Nat) (pof : Pof ι) (pe : PofElem ι) (timeout : Bool)
    (hpos : pof.queueLen ≠ 0) :
    (timeout = false ∧ pof.lastSent + 1 < pe.seq ∧
        tryForwardLoop (n + 1) pof (some pe) timeout = (pof, [])) ∨
      ((timeout = true ∨ pe.seq ≤ pof.lastSent + 1) ∧ ∃ takeAny,
        takeAny = (pof.takeAny && !(timeout || decide (pe.seq = pof.lastSent + 1))) ∧
        tryForwardLoop (n + 1) pof (some pe) timeout =
          ((tryForwardLoop n (pofSent pof takeAny pe)
              (pofSent pof takeAny pe).queue.head? false).1,
            ⟨pof, pe⟩ :: (tryForwardLoop n (pofSent pof takeAny pe)
              (pofSent pof takeAny pe).queue.head? false).2)) := by
  -- the three outcomes of the two tests of the loop body
  by_cases hfirst : pe.seq = pof.lastSent + 1 ∨ timeout = true
  · right
    refine ⟨hfirst.symm.imp_right Nat.le_of_eq, false, ?_, ?_⟩
    · rcases hfirst with heq | htimeout
      · rw [decide_eq_true heq, Bool.or_true, Bool.not_true, Bool.and_false]
      · rw [htimeout, Bool.true_or, Bool.not_true, Bool.and_false]
    · simp only [tryForwardLoop, if_neg hpos, if_pos hfirst, pofSent]
  · have htimeout : timeout = false := by
      rw [Bool.eq_false_iff]
      exact fun h => hfirst (Or.inr h)
    subst htimeout
    by_cases hlate : pe.seq < pof.lastSent + 1
    · right
      refine ⟨Or.inr (Nat.le_of_lt hlate), pof.takeAny, ?_, ?_⟩
      · rw [decide_eq_false (Nat.ne_of_lt hlate), Bool.or_false, Bool.not_false, Bool.and_true]
      · simp only [tryForwardLoop, if_neg hpos, if_neg hfirst, if_pos hlate, pofSent]
    · left
      refine ⟨rfl, ?_, ?_⟩
      · have hne : pe.seq ≠ pof.lastSent + 1 := fun h => hfirst (Or.inl h)
        omega
      · simp only [tryForwardLoop, if_neg hpos, if_neg hfirst, if_neg hlate]

/-- The loop from the head of the buffer, without a timeout. The induction is
on the length of the buffer: every round takes its head out. -/
theorem tryForwardLoop_orderly (n : Nat) (pof : Pof ι) (hok : BufferOk pof)
    (hn : pof.queueLen = n) :
    OrderlyFrom pof (tryForwardLoop n pof pof.queue.head? false) := by
  induction n generalizing pof with
  | zero =>
    have hnil : pof.queue = [] := hok.queueLen_eq_zero_iff.mp hn
    exact orderlyFrom_nil pof hok (idle_of_nil pof hnil)
  | succ n ih =>
    cases hhead : pof.queue.head? with
    | none =>
      have hzero := hok.queueLen_eq_zero_iff.mpr (head?_eq_none_iff.mp hhead)
      omega
    | some pe =>
      have hmem : pe ∈ pof.queue := mem_of_head? hhead
      rcases tryForwardLoop_cases n pof pe false (by omega) with
        ⟨_, hearly, heq⟩ | ⟨hnow, takeAny, _, heq⟩
      · -- the head is too early, and the loop ends
        rw [heq]
        refine orderlyFrom_nil pof hok ?_
        intro e he
        rw [Option.some.inj (hhead.symm.trans he)] at hearly
        exact hearly
      · -- the head is forwarded, and the loop goes on with the next one
        have hlen : (pofSent pof takeAny pe).queueLen = n := by
          rw [pofSent_eq pof takeAny pe hok hmem]
          exact Nat.sub_eq_of_eq_add hn
        have hrest := ih (pofSent pof takeAny pe) (pofSent_ok pof takeAny pe hok hmem) hlen
        rw [heq]
        refine ⟨drained_cons pof takeAny pe hok hmem _ hrest.toDrained, hrest.idle, ?_⟩
        intro f hf
        rcases mem_cons.mp hf with rfl | hf
        · refine ⟨hnow.resolve_left Bool.false_ne_true, ?_⟩
          exact lowest_head pof hok pe hhead
        · exact hrest.orderly f hf

theorem pofSent_takeAny (pof : Pof ι) (takeAny : Bool) (pe : PofElem ι) :
    (pofSent pof takeAny pe).takeAny = takeAny := by
  unfold pofSent pofForward pofPopItem
  split_ifs <;> rfl

theorem tryForwardLoop_takeAny (n : Nat) (pof : Pof ι) (pkt : Option (PofElem ι))
    (timeout : Bool) (htake : pof.takeAny = false) :
    (tryForwardLoop n pof pkt timeout).1.takeAny = false := by
  induction n generalizing pof pkt timeout with
  | zero => exact htake
  | succ n ih =>
    by_cases hpos : pof.queueLen = 0
    · simp only [tryForwardLoop, if_pos hpos]
      exact htake
    cases pkt with
    | none =>
      simp only [tryForwardLoop, if_neg hpos]
      exact htake
    | some pe =>
      rcases tryForwardLoop_cases n pof pe timeout hpos with
        ⟨-, -, heq⟩ | ⟨-, takeAny, hany, heq⟩
      · rw [heq]
        exact htake
      · rw [heq]
        refine ih _ _ false ?_
        rw [pofSent_takeAny, hany, htake, Bool.false_and]

/-- A call of `pof_try_forward`. Either the loop starts from the head, or one
packet is forwarded because of a timeout and the loop goes on from the
head. -/
theorem pofTryForward_cases (event : Nat) (hok : BufferOk pof)
    (hnext : ∀ pe, pof.nextToForward = some pe → pe ∈ pof.queue) :
    (OrderlyFrom pof (pofTryForward pof event) ∧
        (event &&& pofTimeout = 0 ∨ pktToSend pof event = none)) ∨
      ∃ pe r, event &&& pofTimeout ≠ 0 ∧ pktToSend pof event = some pe ∧
        pe ∈ pof.queue ∧ OrderlyFrom (pofSent pof false pe) r ∧
        pofTryForward pof event = (r.1, ⟨pof, pe⟩ :: r.2) := by
  by_cases hflag : event &&& pofTimeout = 0
  · left
    refine ⟨?_, Or.inl hflag⟩
    have hpkt : pktToSend pof event = pof.queue.head? := by
      unfold pktToSend
      rw [if_neg fun hand => hand.1 hflag]
    unfold pofTryForward
    rw [hpkt, decide_eq_false (not_not_intro hflag)]
    exact tryForwardLoop_orderly pof.queueLen pof hok rfl
  · have hmem : ∀ pe, pktToSend pof event = some pe → pe ∈ pof.queue := by
      intro pe hpe
      unfold pktToSend at hpe
      split_ifs at hpe
      · exact hnext pe hpe
      · exact mem_of_head? hpe
    cases hpkt : pktToSend pof event with
    | none =>
      -- no packet to start with means an empty buffer
      left
      refine ⟨?_, Or.inr rfl⟩
      have hnil : pof.queue = [] := by
        unfold pktToSend at hpkt
        split_ifs at hpkt with hcond
        · rw [hpkt] at hcond
          exact absurd hcond.2.2 Bool.false_ne_true
        · exact head?_eq_none_iff.mp hpkt
      have hzero : pof.queueLen = 0 := hok.queueLen_eq_zero_iff.mpr hnil
      unfold pofTryForward
      rw [hzero]
      exact orderlyFrom_nil pof hok (idle_of_nil pof hnil)
    | some pe =>
      right
      have hpe := hmem pe hpkt
      have hpos : 0 < pof.queueLen := by
        rw [hok.length]
        exact length_pos_of_mem hpe
      rcases Nat.exists_eq_add_one.mpr hpos with ⟨n, hn⟩
      unfold pofTryForward
      rw [hpkt, decide_eq_true hflag, hn]
      -- the first round is the timeout's, the others are like those without one
      rcases tryForwardLoop_cases n pof pe true (by omega) with
        ⟨hfalse, _⟩ | ⟨_, takeAny, hany, heq⟩
      · exact absurd hfalse Bool.true_eq_false_eq_False
      · rw [Bool.true_or, Bool.not_true, Bool.and_false] at hany
        subst hany
        refine ⟨pe, _, hflag, rfl, hpe, ?_, heq⟩
        refine tryForwardLoop_orderly n _ (pofSent_ok pof false pe hok hpe) ?_
        rw [pofSent_eq pof false pe hok hpe]
        exact Nat.sub_eq_of_eq_add hn

theorem pofTryForward_single (hqueue : pof.queue = [pe]) (hlen : pof.queueLen = 1) :
    pofTryForward pof pofInOrderPkt =
      if pe.seq ≤ pof.lastSent + 1 then
        (pofSent pof (pof.takeAny && decide (pe.seq ≠ pof.lastSent + 1)) pe, [⟨pof, pe⟩])
      else (pof, []) := by
  have hpkt : pktToSend pof pofInOrderPkt = some pe := by
    unfold pktToSend
    rw [hqueue, if_neg fun h => h.1 rfl]
    rfl
  unfold pofTryForward
  rw [hpkt, hlen]
  rcases tryForwardLoop_cases 0 pof pe false (by omega) with
    ⟨-, hearly, heq⟩ | ⟨hnow, takeAny, hany, heq⟩
  · rw [if_neg (Nat.not_le_of_lt hearly)]
    exact heq
  · rw [Bool.false_or, ← decide_not] at hany
    rw [if_pos (hnow.resolve_left Bool.false_ne_true), ← hany]
    exact heq

theorem pofTryForward_takeAny {event : Nat} (hpos : pof.queueLen ≠ 0)
    (hflag : event &&& pofTimeout ≠ 0) (hpkt : pktToSend pof event = some pe) :
    (pofTryForward pof event).1.takeAny = false := by
  rcases Nat.exists_eq_add_one.mpr (Nat.pos_of_ne_zero hpos) with ⟨n, hn⟩
  unfold pofTryForward
  rw [hpkt, decide_eq_true hflag, hn]
  rcases tryForwardLoop_cases n pof pe true hpos with ⟨hfalse, _⟩ | ⟨_, takeAny, hany, heq⟩
  · exact absurd hfalse Bool.true_eq_false_eq_False
  · rw [heq]
    refine tryForwardLoop_takeAny n _ _ false ?_
    rw [pofSent_takeAny, hany, Bool.true_or, Bool.not_true, Bool.and_false]

theorem pofTryForward_drained (event : Nat) (hok : BufferOk pof)
    (hnext : ∀ pe, pof.nextToForward = some pe → pe ∈ pof.queue) :
    Drained pof (pofTryForward pof event) := by
  rcases pofTryForward_cases event hok hnext with ⟨hall, _⟩ | ⟨pe, r, _, _, hpe, hrest, heq⟩
  · exact hall.toDrained
  · rw [heq]
    exact drained_cons pof false pe hok hpe r hrest.toDrained

theorem pofTryForward_idle (event : Nat) (hok : BufferOk pof)
    (hnext : ∀ pe, pof.nextToForward = some pe → pe ∈ pof.queue) :
    Idle (pofTryForward pof event).1 := by
  rcases pofTryForward_cases event hok hnext with ⟨hall, _⟩ | ⟨pe, r, _, _, hpe, hrest, heq⟩
  · exact hall.idle
  · rw [heq]
    exact hrest.idle

/-- A property that orderly forwarding has holds of everything a call forwards
if and only if it holds of the packet the timeout lets out. -/
theorem forall_pofTryForward_iff {Q : Forwarding ι → Prop} (hQ : ∀ f, InOrder f → Lowest f → Q f)
    (event : Nat) (hok : BufferOk pof)
    (hnext : ∀ pe, pof.nextToForward = some pe → pe ∈ pof.queue) :
    (∀ f ∈ (pofTryForward pof event).2, Q f) ↔
      (event &&& pofTimeout ≠ 0 → ∀ pe, pktToSend pof event = some pe → Q ⟨pof, pe⟩) := by
  rcases pofTryForward_cases event hok hnext with
    ⟨hall, hno⟩ | ⟨pe, r, hflag, hpkt, hpe, hrest, heq⟩
  · refine iff_of_true ?_ ?_
    · intro f hf
      exact hQ f (hall.orderly f hf).1 (hall.orderly f hf).2
    · intro hflag pe hpkt
      rw [hpkt] at hno
      exact absurd (hno.resolve_left hflag) (Option.some_ne_none pe)
  · -- all but the first packet are orderly, so the first one decides
    rw [heq, forall_mem_cons]
    constructor
    · intro hall _ pe' hpe'
      rw [← Option.some.inj (hpkt.symm.trans hpe')]
      exact hall.1
    · intro hfirst
      refine ⟨hfirst hflag pe hpkt, ?_⟩
      intro f hf
      exact hQ f (hrest.orderly f hf).1 (hrest.orderly f hf).2

end Dnt
