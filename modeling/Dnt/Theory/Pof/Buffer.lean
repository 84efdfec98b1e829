import Dnt.Library.Stock
import Dnt.Theory.Pof.Forward

/-!
# The Buffer over a Run

The worker leaves every round by choosing a deadline anew, so `next_to_forward`
points into the buffer again whatever the round did before. Insertions only add
to the buffer, so it stays valid until the next round. Nothing here depends on
the clock: the inputs of a run can come in any order and with any readings.

## Main definitions

* `PofOk`: The invariant of the conditional delay buffer.
* `Accounts`: What one input does to the packets.

## Theorems

* `pofRun_buffer`: In every run the invariant holds, and the accepted packets are those that
  were forwarded and those in the buffer, none of them twice.
-/

namespace Dnt

open Mealy

variable {ι : Type*}
variable {pof : Pof ι}

structure PofOk (pof : Pof ι) : Prop extends BufferOk pof where
  bound : pof.queueLen ≤ pof.queueMaxLen
  next : ∀ pe, pof.nextToForward = some pe → pe ∈ pof.queue

variable {r : Pof ι × List (Forwarding ι)}

open List

theorem PofOk.read (h : PofOk pof) : PofOk { pof with evfd := 0 } :=
  ⟨h.toBufferOk.read, h.bound, h.next⟩

theorem mem_of_scanDeadlines {l : List (PofElem ι)} (ret : Nat) (next : Option (PofElem ι))
    {pe : PofElem ι} (h : (scanDeadlines l ret next).2 = some pe) : next = some pe ∨ pe ∈ l := by
  induction l generalizing ret next with
  | nil => exact Or.inl h
  | cons iter rest ih =>
    unfold scanDeadlines at h
    grind

/-- A chosen deadline belongs to a buffered packet, and choosing it changes
nothing else. -/
theorem getNextDeadline_spec (pof : Pof ι) :
    ∃ next, (getNextDeadline pof).1 = { pof with nextToForward := next } ∧
      ∀ pe, next = some pe → pe ∈ pof.queue := by
  have hnone : ∀ pe : PofElem ι, none = some pe → pe ∈ pof.queue :=
    fun pe h => absurd h (Option.some_ne_none pe).symm
  unfold getNextDeadline
  split_ifs
  · exact ⟨none, rfl, hnone⟩
  · split
    · exact ⟨none, rfl, hnone⟩
    · refine ⟨_, rfl, ?_⟩
      intro pe hpe
      exact (mem_of_scanDeadlines _ _ hpe).resolve_left (Option.some_ne_none pe).symm

/-- The end of a round changes the saved pointer and the times, and makes the
pointer valid. -/
theorem pofWait_spec (pof : Pof ι) (now : Nat) : ∃ next wakeup, pofWait pof now =
        { pof with nextToForward := next, wakeup := wakeup, clock := now } ∧
      ∀ pe, next = some pe → pe ∈ pof.queue := by
  rcases getNextDeadline_spec pof with ⟨next, heq, hnext⟩
  refine ⟨next, (pofWait pof now).wakeup, ?_, hnext⟩
  simp only [pofWait, heq]

theorem pofReset_of_nil (h : pof.queue = []) : pofReset pof = { pof with takeAny := true } := by
  have hlen : pof.queue.length = 0 := length_eq_zero_iff.mpr h
  simp only [pofReset, hlen, popHeads]

theorem pofEvent_drained (hok : PofOk pof) : Drained { pof with evfd := 0 } (pofEvent pof) := by
  unfold pofEvent
  dsimp only
  split_ifs
  · exact pofTryForward_drained pof.evfd hok.read.toBufferOk hok.next
  · exact drained_nil hok.read.toBufferOk

/-- When the time is up and the buffer is empty, the worker takes any number from now on. -/
theorem pofExpire_empty (hok : BufferOk pof) (hzero : pof.queueLen = 0) :
    pofExpire pof = ({ pof with takeAny := true }, []) := by
  unfold pofExpire
  rw [if_neg (not_not_intro hzero), pofReset_of_nil (hok.queueLen_eq_zero_iff.mp hzero)]

theorem pofExpire_filled (hpos : pof.queueLen ≠ 0) : pofExpire pof = pofTryForward pof pofTimeout :=
  if_pos hpos

theorem pofExpire_drained (hok : PofOk pof) : Drained pof (pofExpire pof) := by
  by_cases hzero : pof.queueLen = 0
  · rw [pofExpire_empty hok.toBufferOk hzero]
    exact ⟨⟨hok.sorted, hok.length, hok.fresh, hok.distinct⟩, List.Perm.refl _, rfl, rfl, rfl⟩
  · rw [pofExpire_filled hzero]
    exact pofTryForward_drained pofTimeout hok.toBufferOk hok.next

theorem drained_bound (hok : PofOk pof) (h : Drained pof r) : r.1.queueLen ≤ r.1.queueMaxLen := by
  have hlen := h.perm.length_eq
  have hbound := hok.bound
  rw [length_append, ← h.ok.length, ← hok.length] at hlen
  rw [h.queueMaxLen]
  omega

/-- What one input does: the invariant stays, and the packets taken in and
those in the buffer before are the packets let out and those in the buffer
after. -/
structure Accounts (pof : Pof ι) (r : Pof ι × PofOutput ι) : Prop where
  ok : PofOk r.1
  perm : (r.2.accepted.toList ++ pof.queue).Perm (r.2.forwarded.map Forwarding.pe ++ r.1.queue)
  queueMaxLen : r.1.queueMaxLen = pof.queueMaxLen
  nextAddr_le : pof.nextAddr ≤ r.1.nextAddr
  accepted_addr : ∀ pe, r.2.accepted = some pe → pof.nextAddr ≤ pe.addr ∧ pe.addr < r.1.nextAddr

/-- The buffer with a packet that is kept. -/
def pofKept (pof : Pof ι) (pi : ι) (sequence now : Nat) : Pof ι :=
  { pof with
    queue := pofLink (newPofElem pof pi sequence now) pof.queue
    queueLen := pof.queueLen + 1
    evfd := pof.evfd +
      if sequence % 65536 ≤ pof.lastSent + 1 ∨ pof.takeAny = true then pofInOrderPkt
      else pofOutOfOrderPkt
    nextAddr := pof.nextAddr + 1 }

theorem pofStep_arrive_cases (pof : Pof ι) (pi : ι) (sequence now : Nat) :
    (seqIsOam sequence = true ∧ pofStep pof (.arrive pi sequence now) =
        ({ pof with clock := now }, ⟨some .acrContinue, none, []⟩)) ∨
    (seqIsOam sequence = false ∧ pof.queueMaxLen ≤ pof.queueLen ∧
      pofStep pof (.arrive pi sequence now) =
        ({ pof with clock := now }, ⟨some .acrDone, none, []⟩)) ∨
    (seqIsOam sequence = false ∧ pof.queueLen < pof.queueMaxLen ∧
      pofStep pof (.arrive pi sequence now) = ({ pofKept pof pi sequence now with clock := now },
          ⟨some .acrHold, some (newPofElem pof pi sequence now), []⟩)) := by
  cases hoam : seqIsOam sequence with
  | true =>
    refine Or.inl ⟨rfl, ?_⟩
    simp only [pofStep, pofInsert, if_pos hoam]
  | false =>
    have hnot : ¬ seqIsOam sequence = true := Bool.eq_false_iff.mp hoam
    by_cases hfull : pof.queueLen ≥ pof.queueMaxLen
    · refine Or.inr (Or.inl ⟨rfl, hfull, ?_⟩)
      simp only [pofStep, pofInsert, if_neg hnot, if_pos hfull]
    · refine Or.inr (Or.inr ⟨rfl, not_le.mp hfull, ?_⟩)
      simp only [pofStep, pofInsert, if_neg hnot, if_neg hfull]
      rfl

theorem pofKept_ok (hok : PofOk pof) (pi : ι) (sequence now : Nat)
    (hroom : pof.queueLen < pof.queueMaxLen) : PofOk (pofKept pof pi sequence now) := by
  have hperm := perm_orderedInsert SeqLe (newPofElem pof pi sequence now) pof.queue
  rw [← pofLink_eq_orderedInsert] at hperm
  refine ⟨⟨?_, ?_, ?_, ?_⟩, hroom, ?_⟩
  · unfold pofKept
    rw [pofLink_eq_orderedInsert]
    exact hok.sorted.orderedInsert _ _
  · exact (congrArg (· + 1) hok.length).trans hperm.length_eq.symm
  · intro pe hpe
    rcases mem_cons.mp (hperm.subset hpe) with rfl | hpe
    · exact Nat.lt_succ_self _
    · exact Nat.lt_succ_of_lt (hok.fresh pe hpe)
  · refine (hperm.pairwise_iff fun hne => hne.symm).mpr (pairwise_cons.mpr ?_)
    exact ⟨fun pe hpe => Nat.ne_of_gt (hok.fresh pe hpe), hok.distinct⟩
  · intro pe hpe
    exact hperm.symm.subset (mem_cons_of_mem _ (hok.next pe hpe))

theorem PofOk.at_clock (h : PofOk pof) (now : Nat) : PofOk { pof with clock := now } :=
  ⟨⟨h.sorted, h.length, h.fresh, h.distinct⟩, h.bound, h.next⟩

theorem pofInsert_accounts (hok : PofOk pof) (pi : ι) (sequence now : Nat) :
    Accounts pof (pofStep pof (.arrive pi sequence now)) := by
  -- a packet that is not kept leaves no trace
  have hsame (result : ActionResult) :
      Accounts pof ({ pof with clock := now }, ⟨some result, none, []⟩) := by
    refine ⟨hok.at_clock now, List.Perm.refl _, rfl, Nat.le_refl _, ?_⟩
    intro pe hpe
    exact absurd hpe (Option.some_ne_none pe).symm
  rcases pofStep_arrive_cases pof pi sequence now with ⟨-, heq⟩ | ⟨-, -, heq⟩ | ⟨-, hroom, heq⟩
  · rw [heq]
    exact hsame .acrContinue
  · rw [heq]
    exact hsame .acrDone
  · rw [heq]
    have hperm := perm_orderedInsert SeqLe (newPofElem pof pi sequence now) pof.queue
    rw [← pofLink_eq_orderedInsert] at hperm
    refine ⟨(pofKept_ok hok pi sequence now hroom).at_clock now, hperm.symm, rfl, Nat.le_succ _, ?_⟩
    intro pe hpe
    rw [← Option.some.inj hpe]
    exact ⟨Nat.le_refl _, Nat.lt_succ_self _⟩

theorem accounts_of_drained (hok : PofOk pof) (now : Nat) (h : Drained pof r) :
    Accounts pof (pofWait r.1 now, ⟨none, none, r.2⟩) := by
  rcases pofWait_spec r.1 now with ⟨next, wakeup, heq, hnext⟩
  have hbuffer := h.ok
  rw [heq]
  refine ⟨⟨⟨hbuffer.sorted, hbuffer.length, hbuffer.fresh, hbuffer.distinct⟩,
    drained_bound hok h, hnext⟩, h.perm, h.queueMaxLen, Nat.le_of_eq h.nextAddr.symm, ?_⟩
  intro pe hpe
  exact absurd hpe (Option.some_ne_none pe).symm

theorem pofStep_accounts (hok : PofOk pof) (input : PofInput ι) :
    Accounts pof (pofStep pof input) := by
  cases input with
  | arrive pi sequence now => exact pofInsert_accounts hok pi sequence now
  | event now =>
    -- the accounts are those of the object with its eventfd read
    have h := accounts_of_drained hok.read now (pofEvent_drained hok)
    exact ⟨h.ok, h.perm, h.queueMaxLen, h.nextAddr_le, h.accepted_addr⟩
  | timeout now => exact accounts_of_drained hok now (pofExpire_drained hok)

def pofAccepted (outs : List (PofOutput ι)) : List (PofElem ι) :=
  outs.flatMap fun out => out.accepted.toList

def pofForwarded (outs : List (PofOutput ι)) : List (PofElem ι) :=
  outs.flatMap fun out => out.forwarded.map Forwarding.pe

/-- The buffer as a stock of packets. -/
def pofStock : Stock (Pof ι) (PofOutput ι) (PofElem ι) where
  intake out := out.accepted.toList
  outtake out := out.forwarded.map Forwarding.pe
  stock := Pof.queue
  next := Pof.nextAddr
  id := PofElem.addr

theorem pofStep_numbered (hok : PofOk pof) (input : PofInput ι) :
    pofStock.Numbered pof (pofStep pof input) := by
  have hstep := pofStep_accounts hok input
  exact pofStock.numbered_of_toList (pofStep pof input).2.accepted rfl hstep.nextAddr_le
    hstep.accepted_addr

theorem pofRun_accounts (pof : Pof ι) (hok : PofOk pof) (inputs : List (PofInput ι)) :
    PofOk (final pofStep pof inputs) ∧ (final pofStep pof inputs).queueMaxLen = pof.queueMaxLen ∧
      (pofAccepted (outputs pofStep pof inputs) ++ pof.queue).Perm
        (pofForwarded (outputs pofStep pof inputs) ++ (final pofStep pof inputs).queue) ∧
      (pofAccepted (outputs pofStep pof inputs)).Pairwise fun a b => a.addr ≠ b.addr := by
  have hbalanced := pofStock.run_balanced PofOk (fun pof input hok =>
    ⟨(pofStep_accounts hok input).ok, (pofStep_accounts hok input).perm⟩) pof hok inputs
  have hnumbered := pofStock.run_numbered PofOk (fun pof input hok =>
    ⟨(pofStep_accounts hok input).ok, pofStep_numbered hok input⟩) pof hok inputs
  refine ⟨?_, ?_, hbalanced, hnumbered.2⟩
  · clear hbalanced hnumbered
    induction inputs generalizing pof with
    | nil => exact hok
    | cons input inputs ih => exact ih _ (pofStep_accounts hok input).ok
  · clear hbalanced hnumbered
    induction inputs generalizing pof with
    | nil => rfl
    | cons input inputs ih =>
      have hstep := pofStep_accounts hok input
      exact (ih _ hstep.ok).trans hstep.queueMaxLen

theorem pofInit_of_nil (pof : Pof ι) (start : Nat) (hnil : pof.queue = [])
    (hlen : pof.queueLen = 0) : PofOk (pofInit pof start) ∧ (pofInit pof start).queue = [] ∧
      (pofInit pof start).lastSent = pof.lastSent := by
  unfold pofInit
  rw [pofReset_of_nil hnil]
  rcases pofWait_spec { pof with takeAny := true } start with ⟨next, wakeup, heq, hnext⟩
  rw [heq]
  refine ⟨⟨⟨?_, ?_, ?_, ?_⟩, ?_, hnext⟩, hnil, rfl⟩
  · rw [hnil]
    exact List.Pairwise.nil
  · rw [hnil]
    exact hlen
  · rw [hnil]
    exact forall_mem_nil _
  · rw [hnil]
    exact List.Pairwise.nil
  · rw [hlen]
    exact Nat.zero_le _

theorem pofInit_ok (maxDelay takeAnyTime queueMaxLen start : Nat) :
    PofOk (pofInit (newPof maxDelay takeAnyTime queueMaxLen : Pof ι) start) ∧
      (pofInit (newPof maxDelay takeAnyTime queueMaxLen : Pof ι) start).queue = [] := by
  rcases pofInit_of_nil (newPof maxDelay takeAnyTime queueMaxLen : Pof ι) start rfl rfl with
    ⟨hok, hnil, -⟩
  exact ⟨hok, hnil⟩

/-- The buffer over a run. After any inputs it is sorted, `queue_len` is its length
and within the limit, and `next_to_forward` points into it. The accepted packets
are the forwarded ones and those in the buffer, none of them twice. -/
theorem pofRun_buffer (maxDelay takeAnyTime queueMaxLen start : Nat)
    (inputs : List (PofInput ι)) :
    let pof := final pofStep (pofInit (newPof maxDelay takeAnyTime queueMaxLen) start) inputs
    let outs :=
      outputs pofStep (pofInit (newPof maxDelay takeAnyTime queueMaxLen) start) inputs
    (pof.queue.Pairwise fun a b => a.seq ≤ b.seq) ∧
      pof.queueLen = pof.queue.length ∧
      pof.queueLen ≤ queueMaxLen ∧
      (∀ pe, pof.nextToForward = some pe → pe ∈ pof.queue) ∧
      (pofAccepted outs).Perm (pofForwarded outs ++ pof.queue) ∧
      (pofAccepted outs).Nodup := by
  have hstart := @pofInit_ok ι maxDelay takeAnyTime queueMaxLen start
  rcases pofRun_accounts _ hstart.1 inputs with ⟨hok, hmax, hperm, hdistinct⟩
  refine ⟨hok.sorted, hok.length, ?_, hok.next, ?_, ?_⟩
  · exact hok.bound.trans (Nat.le_of_eq hmax)
  · rw [hstart.2, append_nil] at hperm
    exact hperm
  · exact hdistinct.imp fun hne heq => hne (congrArg PofElem.addr heq)

end Dnt
