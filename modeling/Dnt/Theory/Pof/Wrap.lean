import Dnt.Theory.Pof.Order

/-!
# Wrapping Sequence Numbers

Sequence numbers have 16 bits, so moving all numbers of a run by some constant
should change nothing. The code compares the numbers themselves. So a packet that is late
in one run may be early in the other, whatever the constant is.

## Main definitions

* `shiftNumber`, `shiftInput`: Moving a number, and an input, by a constant.
* `ForwardAlike`: Two runs forward the same packets at the same steps.

## Theorems

* `pofRun_shift`: The moved run forwards alike if at each step all numbers wrap or none does,
  and need not without that.
-/

namespace Dnt

open Mealy

open List

variable {ι : Type*}
variable {input : PofInput ι}

/-! ## Renaming -/

def PofElem.rename (g : Nat → Nat) (pe : PofElem ι) : PofElem ι :=
  { pe with seq := g pe.seq }

/-- The object with a number `g n` wherever it has the number `n`. -/
def Pof.rename (g : Nat → Nat) (pof : Pof ι) : Pof ι :=
  { pof with
    lastSent := g pof.lastSent
    queue := pof.queue.map (PofElem.rename g)
    nextToForward := pof.nextToForward.map (PofElem.rename g) }

section Fields

variable (g : Nat → Nat) (pof : Pof ι) (pe : PofElem ι)

@[simp] theorem PofElem.rename_seq : (pe.rename g).seq = g pe.seq := rfl

@[simp] theorem PofElem.rename_forwardTime : (pe.rename g).forwardTime = pe.forwardTime := rfl

@[simp] theorem Pof.rename_queueLen : (pof.rename g).queueLen = pof.queueLen := rfl

@[simp] theorem Pof.rename_lastSent : (pof.rename g).lastSent = g pof.lastSent := rfl

@[simp] theorem Pof.rename_queue :
    (pof.rename g).queue = pof.queue.map (PofElem.rename g) := rfl

@[simp] theorem Pof.rename_nextToForward :
    (pof.rename g).nextToForward = pof.nextToForward.map (PofElem.rename g) := rfl

end Fields

/-- The comparisons of the code do not see the difference. -/
structure Respects (g : Nat → Nat) (numbers : Set Nat) : Prop where
  lt_iff : ∀ a ∈ numbers, ∀ b ∈ numbers, g a < g b ↔ a < b
  succ_iff : ∀ a ∈ numbers, ∀ b ∈ numbers, g a = g b + 1 ↔ a = b + 1

structure NumbersIn (numbers : Set Nat) (pof : Pof ι) : Prop where
  lastSent : pof.lastSent ∈ numbers
  queue : ∀ pe ∈ pof.queue, pe.seq ∈ numbers

/-- What was forwarded, without the object at that moment. -/
def sentPackets (fs : List (Forwarding ι)) : List ι :=
  fs.map fun f => f.pe.pi

/-- The second round differs from the first in the numbers only. -/
structure Renamed (g : Nat → Nat) (numbers : Set Nat) (r r' : Pof ι × List (Forwarding ι)) :
    Prop where
  state : r'.1 = r.1.rename g
  sent : sentPackets r'.2 = sentPackets r.2
  numbersIn : NumbersIn numbers r.1

section Rename

variable {g : Nat → Nat} {numbers : Set Nat}

theorem le_succ_rename_iff (h : Respects g numbers) {a b : Nat} (ha : a ∈ numbers)
    (hb : b ∈ numbers) : g a ≤ g b + 1 ↔ a ≤ b + 1 := by
  have hlt := h.lt_iff b hb a ha
  have hsucc := h.succ_iff a ha b hb
  omega

theorem pofLink_rename (h : Respects g numbers) {pe : PofElem ι} {l : List (PofElem ι)}
    (hpe : pe.seq ∈ numbers) (hl : ∀ e ∈ l, e.seq ∈ numbers) :
    pofLink (pe.rename g) (l.map (PofElem.rename g)) = (pofLink pe l).map (PofElem.rename g) := by
  induction l with
  | nil => rfl
  | cons iter rest ih =>
    have hiff := h.lt_iff iter.seq (hl iter mem_cons_self) pe.seq hpe
    have hrest := ih fun e he => hl e (mem_cons_of_mem iter he)
    simp only [map_cons, pofLink, PofElem.rename_seq, hiff, hrest]
    split_ifs
    · rfl
    · rfl

theorem pofPopItem_rename (pof : Pof ι) (pe : PofElem ι) :
    pofPopItem (pof.rename g) (pe.rename g) = (pofPopItem pof pe).rename g := by
  have herase : (pof.queue.map (PofElem.rename g)).eraseP
        (fun iter => iter.addr = (pe.rename g).addr) =
      (pof.queue.eraseP fun iter => iter.addr = pe.addr).map (PofElem.rename g) := by
    rw [eraseP_map]
    rfl
  unfold pofPopItem
  rw [Pof.rename_queue, isEmpty_map, herase, Pof.rename_queueLen]
  split_ifs
  all_goals rfl

theorem scanDeadlines_rename (l : List (PofElem ι)) (ret : Nat) (next : Option (PofElem ι)) :
    scanDeadlines (l.map (PofElem.rename g)) ret (next.map (PofElem.rename g)) =
      ((scanDeadlines l ret next).1, (scanDeadlines l ret next).2.map (PofElem.rename g)) := by
  induction l generalizing ret next with
  | nil => rfl
  | cons iter rest ih =>
    rw [map_cons]
    unfold scanDeadlines
    have hsame : (iter.rename g).forwardTime = iter.forwardTime := rfl
    rw [hsame]
    split_ifs
    · exact ih iter.forwardTime (some iter)
    · exact ih ret next

theorem getNextDeadline_rename (pof : Pof ι) : getNextDeadline (pof.rename g) =
      ((getNextDeadline pof).1.rename g, (getNextDeadline pof).2) := by
  have hscan := scanDeadlines_rename (g := g) pof.queue
  unfold getNextDeadline
  rw [Pof.rename_queueLen, Pof.rename_queue]
  split_ifs
  · rfl
  · cases hqueue : pof.queue with
    | nil => rfl
    | cons pe rest =>
      rw [hqueue] at hscan
      have hpe := hscan pe.forwardTime none
      simp only [map_cons, PofElem.rename_forwardTime, Option.map_none] at hpe ⊢
      rw [hpe]
      rfl

theorem pofWait_rename (pof : Pof ι) (now : Nat) :
    pofWait (pof.rename g) now = (pofWait pof now).rename g := by
  simp only [pofWait, getNextDeadline_rename]
  rfl

theorem pofSent_rename (h : Respects g numbers) {pof : Pof ι} (takeAny : Bool) {pe : PofElem ι}
    (hlast : pof.lastSent ∈ numbers) (hpe : pe.seq ∈ numbers) :
    pofSent (pof.rename g) takeAny (pe.rename g) = (pofSent pof takeAny pe).rename g := by
  have hiff := h.lt_iff pof.lastSent hlast pe.seq hpe
  have hforward : pofForward { pof.rename g with takeAny := takeAny } (pe.rename g) =
      (pofForward { pof with takeAny := takeAny } pe).rename g := by
    simp only [pofForward, PofElem.rename_seq, Pof.rename_lastSent, gt_iff_lt, hiff]
    split_ifs
    · rfl
    · rfl
  unfold pofSent
  rw [hforward, pofPopItem_rename]

theorem numbersIn_pofSent {pof : Pof ι} (takeAny : Bool) {pe : PofElem ι}
    (hpof : NumbersIn numbers pof) (hpe : pe.seq ∈ numbers) :
    NumbersIn numbers (pofSent pof takeAny pe) := by
  have hforward : NumbersIn numbers (pofForward { pof with takeAny := takeAny } pe) := by
    unfold pofForward
    split_ifs
    · exact ⟨hpe, hpof.queue⟩
    · exact ⟨hpof.lastSent, hpof.queue⟩
  unfold pofSent pofPopItem
  split_ifs
  · exact hforward
  · exact hforward
  · exact ⟨hforward.lastSent, fun e he => hforward.queue e (eraseP_sublist.subset he)⟩

/-- The forwarding loop makes the same decisions. The induction is on the
rounds: the numbers left after one are among those before it. -/
theorem tryForwardLoop_rename (h : Respects g numbers) (n : Nat) (pof : Pof ι)
    (pkt : Option (PofElem ι)) (timeout : Bool) (hpof : NumbersIn numbers pof)
    (hpkt : ∀ pe ∈ pkt, pe.seq ∈ numbers) :
    Renamed g numbers (tryForwardLoop n pof pkt timeout)
      (tryForwardLoop n (pof.rename g) (pkt.map (PofElem.rename g)) timeout) := by
  have hstop : Renamed g numbers (pof, ([] : List (Forwarding ι))) (pof.rename g, []) :=
    ⟨rfl, rfl, hpof⟩
  induction n generalizing pof pkt timeout with
  | zero => exact hstop
  | succ n ih =>
    cases pkt with
    | none =>
      simp only [tryForwardLoop, Option.map_none, ite_self]
      exact hstop
    | some pe =>
      have hpe := hpkt pe rfl
      have hnext := h.succ_iff pe.seq hpe pof.lastSent hpof.lastSent
      have hlate : g pe.seq < g pof.lastSent + 1 ↔ pe.seq < pof.lastSent + 1 := by
        have hle := h.lt_iff pof.lastSent hpof.lastSent pe.seq hpe
        omega
      -- after one packet, whatever becomes of `take_any`
      have hrest (takeAny timeout' : Bool) :
          let loop (pof : Pof ι) (pe : PofElem ι) := tryForwardLoop n (pofSent pof takeAny pe)
            (pofSent pof takeAny pe).queue.head? timeout'
          Renamed g numbers ((loop pof pe).1, ⟨pof, pe⟩ :: (loop pof pe).2)
            ((loop (pof.rename g) (pe.rename g)).1,
              ⟨pof.rename g, pe.rename g⟩ :: (loop (pof.rename g) (pe.rename g)).2) := by
        have hin := numbersIn_pofSent takeAny hpof hpe
        dsimp only
        rw [pofSent_rename h takeAny hpof.lastSent hpe, Pof.rename_queue, head?_map]
        have hloop := ih _ _ timeout' hin (fun e he => hin.queue e (mem_of_head? he))
          ⟨rfl, rfl, hin⟩
        exact ⟨hloop.state, congrArg (pe.pi :: ·) hloop.sent, hloop.numbersIn⟩
      simp only [tryForwardLoop, Option.map_some, PofElem.rename_seq, Pof.rename_lastSent,
        Pof.rename_queueLen, hnext, hlate]
      split_ifs
      · exact hstop
      · exact hrest false false
      · exact hrest pof.takeAny timeout
      · exact hstop

theorem pofTryForward_rename (h : Respects g numbers) (pof : Pof ι) (event : Nat)
    (hpof : NumbersIn numbers pof) (hnext : ∀ pe ∈ pof.nextToForward, pe.seq ∈ numbers) :
    Renamed g numbers (pofTryForward pof event) (pofTryForward (pof.rename g) event) := by
  have hpkt : pktToSend (pof.rename g) event =
      (pktToSend pof event).map (PofElem.rename g) := by
    unfold pktToSend
    simp only [Pof.rename_nextToForward, Pof.rename_queue, Option.isSome_map, head?_map]
    exact (apply_ite (Option.map _) _ _ _).symm
  have hmem : ∀ pe ∈ pktToSend pof event, pe.seq ∈ numbers := by
    intro pe hpe
    unfold pktToSend at hpe
    split_ifs at hpe
    · exact hnext pe hpe
    · exact hpof.queue pe (mem_of_head? hpe)
  unfold pofTryForward
  rw [hpkt]
  exact tryForwardLoop_rename h pof.queueLen pof _ _ hpof hmem

theorem pofEvent_rename (h : Respects g numbers) {pof : Pof ι} (hpof : NumbersIn numbers pof)
    (hnext : ∀ pe ∈ pof.nextToForward, pe.seq ∈ numbers) :
    Renamed g numbers (pofEvent pof) (pofEvent (pof.rename g)) := by
  by_cases hbit : pof.evfd &&& pofInOrderPkt = 0
  · rw [pofEvent_ignored pof hbit, pofEvent_ignored (pof.rename g) hbit]
    exact ⟨rfl, rfl, hpof.lastSent, hpof.queue⟩
  · rw [pofEvent_handled pof hbit, pofEvent_handled (pof.rename g) hbit]
    exact pofTryForward_rename h { pof with evfd := 0 } pof.evfd ⟨hpof.lastSent, hpof.queue⟩ hnext

theorem pofExpire_rename (h : Respects g numbers) {pof : Pof ι} (hok : BufferOk pof)
    (hpof : NumbersIn numbers pof) (hnext : ∀ pe ∈ pof.nextToForward, pe.seq ∈ numbers) :
    Renamed g numbers (pofExpire pof) (pofExpire (pof.rename g)) := by
  by_cases hempty : pof.queueLen = 0
  · have hnil := hok.queueLen_eq_zero_iff.mp hempty
    have hreset : pofReset (pof.rename g) = { pof.rename g with takeAny := true } :=
      pofReset_of_nil (by rw [Pof.rename_queue, hnil, map_nil])
    have hempty' : ¬ (pof.rename g).queueLen ≠ 0 := not_not_intro hempty
    rw [pofExpire_empty hok hempty, pofExpire, if_neg hempty', hreset]
    exact ⟨rfl, rfl, hpof.lastSent, hpof.queue⟩
  · rw [pofExpire_filled hempty, pofExpire_filled (by exact hempty)]
    exact pofTryForward_rename h pof pofTimeout hpof hnext

end Rename

/-! ## Shifting -/

def shiftNumber (c n : Nat) : Nat :=
  (n + c) % 65536

/-- A sequence word whose number is moved by `c`. -/
def shiftSequence (c sequence : Nat) : Nat :=
  sequence / 65536 * 65536 + shiftNumber c (sequence % 65536)

def shiftInput (c : Nat) : PofInput ι → PofInput ι
  | .arrive pi sequence now => .arrive pi (shiftSequence c sequence) now
  | .event now => .event now
  | .timeout now => .timeout now

/-- The number of a packet that is not refused. -/
def arrivingNumber (pof : Pof ι) : PofInput ι → Option Nat
  | .arrive _ sequence _ =>
    if seqIsOam sequence = true ∨ pof.queueLen ≥ pof.queueMaxLen then none
    else some (sequence % 65536)
  | _ => none

/-- All numbers present in a step. -/
def pofNumbers (pof : Pof ι) (input : PofInput ι) : List Nat :=
  pof.lastSent :: pof.queue.map PofElem.seq ++ (arrivingNumber pof input).toList

/-- Moved by `c`, all numbers present wrap, or none does. -/
def SameSide (c : Nat) (pof : Pof ι) (input : PofInput ι) : Prop :=
  ∀ n ∈ pofNumbers pof input,
    (65536 ≤ n + c % 65536 ↔ 65536 ≤ pof.lastSent + c % 65536)

/-- The numbers present are less than 32768 consecutive ones, from `base` on. -/
def InWindow (base : Nat) (pof : Pof ι) (input : PofInput ι) : Prop :=
  ∀ n ∈ pofNumbers pof input, (n + 65536 - base) % 65536 < 32767

instance (c : Nat) (pof : Pof ι) (input : PofInput ι) : Decidable (SameSide c pof input) := by
  unfold SameSide
  infer_instance

instance (base : Nat) (pof : Pof ι) (input : PofInput ι) :
    Decidable (InWindow base pof input) := by
  unfold InWindow
  infer_instance

variable {c lastSent maxDelay queueMaxLen start takeAnyTime : Nat} {pof : Pof ι} {numbers : Set Nat}

theorem arrivingNumber_taken {pof : Pof ι} (pi : ι) {sequence : Nat} (now : Nat)
    (hoam : ¬ seqIsOam sequence = true) (hfull : ¬ pof.queueLen ≥ pof.queueMaxLen) :
    arrivingNumber pof (.arrive pi sequence now) = some (sequence % 65536) :=
  if_neg (not_or.mpr ⟨hoam, hfull⟩)

theorem arrivingNumber_lt (n : Nat) (hn : n ∈ arrivingNumber pof input) : n < 65536 := by
  cases input with
  | arrive pi sequence now =>
    simp only [arrivingNumber] at hn
    split_ifs at hn
    · cases hn
    · cases hn
      exact Nat.mod_lt _ (by decide)
  | event now | timeout now => cases hn

theorem shiftSequence_mod (c sequence : Nat) :
    shiftSequence c sequence % 65536 = shiftNumber c (sequence % 65536) := by
  unfold shiftSequence shiftNumber
  omega

theorem seqIsOam_shiftSequence (c sequence : Nat) :
    seqIsOam (shiftSequence c sequence) = seqIsOam sequence := by
  have hdiv : shiftSequence c sequence / 2 ^ 16 = sequence / 2 ^ 16 := by
    unfold shiftSequence shiftNumber
    omega
  unfold seqIsOam
  rw [show 28 = 12 + 16 by rfl, ← Nat.testBit_div_two_pow, hdiv, Nat.testBit_div_two_pow]

theorem respects_shiftNumber {k : Nat} (hbound : ∀ n ∈ numbers, n < 65536)
    (hside : ∀ n ∈ numbers, (65536 ≤ n + c % 65536 ↔ 65536 ≤ k + c % 65536)) :
    Respects (shiftNumber c) numbers := by
  -- on either side the numbers are moved by the same distance
  refine ⟨?_, ?_⟩
  all_goals
    intro a ha b hb
    have ha' := hbound a ha
    have hb' := hbound b hb
    have hsame := (hside a ha).trans (hside b hb).symm
    unfold shiftNumber
    omega

/-! ## Runs -/

theorem numbersIn_pofWait (now : Nat) (hpof : NumbersIn numbers pof) :
    NumbersIn numbers (pofWait pof now) := by
  rcases pofWait_spec pof now with ⟨next, wakeup, heq, _⟩
  rw [heq]
  exact ⟨hpof.lastSent, hpof.queue⟩

theorem numbersIn_arrive (pi : ι) (sequence now : Nat) (hbound : NumbersIn {n | n < 65536} pof) :
    NumbersIn {n | n < 65536} (pofStep pof (.arrive pi sequence now)).1 := by
  rcases pofStep_arrive_cases pof pi sequence now with
    ⟨-, heq⟩ | ⟨-, -, heq⟩ | ⟨hoam, hroom, heq⟩
  · rw [heq]
    exact ⟨hbound.lastSent, hbound.queue⟩
  · rw [heq]
    exact ⟨hbound.lastSent, hbound.queue⟩
  · rw [heq]
    refine ⟨hbound.lastSent, fun e he => ?_⟩
    simp only [pofKept, pofLink_eq_orderedInsert, mem_orderedInsert] at he
    rcases he with rfl | he
    · exact Nat.mod_lt _ (by decide)
    · exact hbound.queue e he

def PofOutput.packets (out : PofOutput ι) : List ι :=
  sentPackets out.forwarded

theorem pofStep_shift (hok : PofOk pof) (hbound : NumbersIn {n | n < 65536} pof)
    (hside : SameSide c pof input) : (pofStep (pof.rename (shiftNumber c)) (shiftInput c input)).1 =
        (pofStep pof input).1.rename (shiftNumber c) ∧
      (pofStep (pof.rename (shiftNumber c)) (shiftInput c input)).2.packets =
        (pofStep pof input).2.packets ∧ NumbersIn {n | n < 65536} (pofStep pof input).1 := by
  have hnumbers : ∀ n ∈ pofNumbers pof input, n < 65536 := by
    intro n hn
    rcases mem_append.mp hn with hn | hn
    · rcases mem_cons.mp hn with rfl | hn
      · exact hbound.lastSent
      · rcases mem_map.mp hn with ⟨pe, hpe, rfl⟩
        exact hbound.queue pe hpe
    · exact arrivingNumber_lt n (Option.mem_toList.mp hn)
  have hrespects : Respects (shiftNumber c) {n | n ∈ pofNumbers pof input} :=
    respects_shiftNumber hnumbers hside
  have hin : NumbersIn {n | n ∈ pofNumbers pof input} pof := by
    refine ⟨mem_append_left _ mem_cons_self, ?_⟩
    intro pe hpe
    exact mem_append_left _ (mem_cons_of_mem _ (mem_map_of_mem hpe))
  have hnext : ∀ pe ∈ pof.nextToForward, pe.seq ∈ {n | n ∈ pofNumbers pof input} :=
    fun pe hpe => hin.queue pe (hok.next pe hpe)
  have hlt : NumbersIn {n | n ∈ pofNumbers pof input} (pofStep pof input).1 →
      NumbersIn {n | n < 65536} (pofStep pof input).1 :=
    fun h => ⟨hnumbers _ h.lastSent, fun pe hpe => hnumbers _ (h.queue pe hpe)⟩
  cases input with
  | event now =>
    have hevent := pofEvent_rename hrespects hin hnext
    refine ⟨?_, hevent.sent, hlt (numbersIn_pofWait now hevent.numbersIn)⟩
    simp only [shiftInput, pofStep, hevent.state, pofWait_rename]
  | timeout now =>
    have hexpire := pofExpire_rename hrespects hok.toBufferOk hin hnext
    refine ⟨?_, hexpire.sent, hlt (numbersIn_pofWait now hexpire.numbersIn)⟩
    simp only [shiftInput, pofStep, hexpire.state, pofWait_rename]
  | arrive pi sequence now =>
    refine ⟨?_, rfl, numbersIn_arrive pi sequence now hbound⟩
    simp only [shiftInput, pofStep, pofInsert, seqIsOam_shiftSequence]
    by_cases hoam : seqIsOam sequence = true
    · simp only [if_pos hoam]
      rfl
    by_cases hfull : pof.queueLen ≥ pof.queueMaxLen
    · have hfull' : (pof.rename (shiftNumber c)).queueLen ≥
          (pof.rename (shiftNumber c)).queueMaxLen := hfull
      simp only [if_neg hoam, if_pos hfull, if_pos hfull']
      rfl
    have hfull' : ¬ (pof.rename (shiftNumber c)).queueLen ≥
        (pof.rename (shiftNumber c)).queueMaxLen := hfull
    simp only [if_neg hoam, if_neg hfull, if_neg hfull']
    -- the new element, and where it goes
    have hpe : newPofElem (pof.rename (shiftNumber c)) pi (shiftSequence c sequence) now =
        (newPofElem pof pi sequence now).rename (shiftNumber c) := by
      simp only [newPofElem, PofElem.rename, shiftSequence_mod]
      rfl
    have hmem : (newPofElem pof pi sequence now).seq ∈
        {n | n ∈ pofNumbers pof (.arrive pi sequence now)} := by
      refine mem_append_right _ ?_
      rw [arrivingNumber_taken pi now hoam hfull]
      exact mem_singleton_self _
    have hcode := le_succ_rename_iff hrespects hmem hin.lastSent
    rw [hpe]
    simp only [PofElem.rename_seq, Pof.rename_lastSent, Pof.rename_queue,
      pofLink_rename hrespects hmem hin.queue, hcode]
    rfl

/-- The object after the worker's initialisation, when the last number sent was
`lastSent`. -/
def pofStart (maxDelay takeAnyTime queueMaxLen lastSent start : Nat) : Pof ι :=
  pofInit { newPof maxDelay takeAnyTime queueMaxLen with lastSent := lastSent } start

theorem pofStart_rename {g : Nat → Nat} :
    (pofStart maxDelay takeAnyTime queueMaxLen lastSent start : Pof ι).rename g =
      pofStart maxDelay takeAnyTime queueMaxLen (g lastSent) start := by
  unfold pofStart pofInit
  rw [← pofWait_rename]
  rfl

/-- Two runs forward the same packets, in the same order, at the same steps. -/
def ForwardAlike (pof pof' : Pof ι) (inputs inputs' : List (PofInput ι)) : Prop :=
  (outputs pofStep pof' inputs').map PofOutput.packets =
    (outputs pofStep pof inputs).map PofOutput.packets

instance [DecidableEq ι] (pof pof' : Pof ι) (inputs inputs' : List (PofInput ι)) :
    Decidable (ForwardAlike pof pof' inputs inputs') := by
  unfold ForwardAlike
  infer_instance

/-- The relation between the two runs, with the invariants of the first. -/
structure ShiftedBy (c : Nat) (pof pof' : Pof ι) : Prop where
  eq : pof' = pof.rename (shiftNumber c)
  ok : PofOk pof
  bound : NumbersIn {n | n < 65536} pof

theorem pofStep_shiftedBy (pof pof' : Pof ι) (input : PofInput ι) (h : ShiftedBy c pof pof')
    (hside : SameSide c pof input) :
    ShiftedBy c (pofStep pof input).1 (pofStep pof' (shiftInput c input)).1 ∧
      (pofStep pof input).2.packets = (pofStep pof' (shiftInput c input)).2.packets := by
  rcases pofStep_shift h.ok h.bound hside with ⟨hstate, hpackets, hbound⟩
  rw [h.eq]
  exact ⟨⟨hstate, (pofStep_accounts h.ok input).ok, hbound⟩, hpackets.symm⟩

theorem pofStart_shiftedBy (maxDelay takeAnyTime queueMaxLen : Nat) (start c : Nat)
    (hlast : lastSent < 65536) :
    ShiftedBy c (pofStart maxDelay takeAnyTime queueMaxLen lastSent start : Pof ι)
      (pofStart maxDelay takeAnyTime queueMaxLen (shiftNumber c lastSent) start) := by
  rcases pofInit_of_nil { (newPof maxDelay takeAnyTime queueMaxLen : Pof ι) with
    lastSent := lastSent } start rfl rfl with ⟨hok, hnil, hsent⟩
  refine ⟨(pofStart_rename).symm, hok, ?_, ?_⟩
  · rw [pofStart, hsent]
    exact hlast
  · rw [pofStart, hnil]
    exact forall_mem_nil _

theorem forwardAlike_of_sameSide (hlast : lastSent < 65536) {inputs : List (PofInput ι)}
    (hside : EveryStep pofStep (SameSide c)
      (pofStart maxDelay takeAnyTime queueMaxLen lastSent start) inputs) :
    ForwardAlike (pofStart maxDelay takeAnyTime queueMaxLen lastSent start)
      (pofStart maxDelay takeAnyTime queueMaxLen (shiftNumber c lastSent) start) inputs
      (inputs.map (shiftInput c)) := by
  have hrun := run_simulation_of_everyStep (shiftInput c) (ShiftedBy c)
    (fun out out' : PofOutput ι => out.packets = out'.packets) (SameSide c) (pofStep_shiftedBy)
    (pofStart_shiftedBy maxDelay takeAnyTime queueMaxLen start c hlast) inputs hside
  unfold ForwardAlike
  rw [← List.forall₂_eq_eq_eq, List.forall₂_map_left_iff, List.forall₂_map_right_iff]
  exact hrun.2.flip.imp fun _ _ h => h.symm

theorem sentPackets_single (pof : Pof ι) (pe : PofElem ι) (hqueue : pof.queue = [pe])
    (hlen : pof.queueLen = 1) :
    sentPackets (pofTryForward pof pofInOrderPkt).2 =
      if pe.seq ≤ pof.lastSent + 1 then [pe.pi] else [] := by
  rw [pofTryForward_single hqueue hlen]
  split_ifs
  · rfl
  · rfl

/-- The object with one packet in its buffer, right after the initialisation. -/
structure HoldsOne (pof : Pof ι) (pi : ι) (lastSent n : Nat) : Prop where
  queue : pof.queue = [⟨0, pi, n, 100⟩]
  queueLen : pof.queueLen = 1
  lastSent : pof.lastSent = lastSent
  evfd : pof.evfd = pofInOrderPkt
  clock : pof.clock = 0

theorem seqIsOam_of_lt (n : Nat) (hn : n < 65536) : ¬ seqIsOam n = true := by
  rw [Bool.not_eq_true]
  exact Nat.testBit_lt_two_pow (by omega)

theorem pofStart_room (a : Nat) : ¬ (pofStart 100 1000 8 a 0 : Pof ι).queueLen ≥
    (pofStart 100 1000 8 a 0 : Pof ι).queueMaxLen :=
  Nat.not_le_of_lt (Nat.zero_lt_succ 7)

theorem holdsOne_arrive (pi : ι) (a b : Nat) (hb : b < 65536) :
    HoldsOne (pofStep (pofStart 100 1000 8 a 0) (.arrive pi b 0)).1 pi a b := by
  have hoam := seqIsOam_of_lt b hb
  have hroom := @pofStart_room ι a
  -- any number is taken, so the code for packets in order is written
  have hany : b ≤ (pofStart 100 1000 8 a 0 : Pof ι).lastSent + 1 ∨
      (pofStart 100 1000 8 a 0 : Pof ι).takeAny = true := Or.inr rfl
  simp only [pofStep, pofInsert, if_neg hoam, if_neg hroom, newPofElem, Nat.mod_eq_of_lt hb,
    if_pos hany]
  exact ⟨rfl, rfl, rfl, rfl, rfl⟩

theorem packets_single (pi : ι) (a b : Nat) (hb : b < 65536) :
    (outputs pofStep (pofStart 100 1000 8 a 0) [.arrive pi b 0, .event 0]).map
      PofOutput.packets = [[], if b ≤ a + 1 then [pi] else []] := by
  have hone := holdsOne_arrive pi a b hb
  generalize hs : (pofStep (pofStart 100 1000 8 a 0) (.arrive pi b 0)).1 = s at hone
  have hbit : s.evfd &&& pofInOrderPkt ≠ 0 := by
    rw [hone.evfd]
    decide
  have hsent := sentPackets_single { s with evfd := 0 } _ hone.queue hone.queueLen
  change _ = if b ≤ s.lastSent + 1 then [pi] else [] at hsent
  rw [outputs_cons, outputs_cons, outputs_nil, hs]
  simp only [map_cons, map_nil, List.cons.injEq, and_true]
  refine ⟨rfl, ?_⟩
  simp only [pofStep, PofOutput.packets, pofEvent_handled s hbit, hone.evfd]
  rw [← hone.lastSent]
  exact hsent

/-- For every constant that moves numbers at all, some packet is late in one run
and early in the other. -/
theorem exists_not_forwardAlike (pi : ι) (c : Nat) (hc : c % 65536 ≠ 0) :
    ∃ lastSent base inputs, lastSent < 65536 ∧
      EveryStep pofStep PofPossible (pofStart 100 1000 8 lastSent 0 : Pof ι) inputs ∧
      EveryStep pofStep (InWindow base) (pofStart 100 1000 8 lastSent 0) inputs ∧
      ¬ ForwardAlike (pofStart 100 1000 8 lastSent 0)
        (pofStart 100 1000 8 (shiftNumber c lastSent) 0) inputs (inputs.map (shiftInput c)) := by
  -- two numbers that are two apart, and of which one wraps
  have hpair : ∃ a b base, a < 65536 ∧ b < 65536 ∧ (a + 65536 - base) % 65536 < 32767 ∧
      (b + 65536 - base) % 65536 < 32767 ∧
      ¬ (shiftNumber c b ≤ shiftNumber c a + 1 ↔ b ≤ a + 1) := by
    unfold shiftNumber
    by_cases hlast : c % 65536 = 65535
    · exact ⟨0, 2, 0, by omega⟩
    · exact ⟨65536 - c % 65536, 65534 - c % 65536, 65534 - c % 65536, by omega⟩
  rcases hpair with ⟨a, b, base, ha, hb, hwa, hwb, hdiffer⟩
  have hwindow : ∀ n ∈ [a, b], (n + 65536 - base) % 65536 < 32767 :=
    forall_mem_cons.mpr ⟨hwa, forall_mem_singleton.mpr hwb⟩
  have hone := holdsOne_arrive pi a b hb
  have hempty : (pofStart 100 1000 8 a 0 : Pof ι).queue = [] := rfl
  have hlast : (pofStart 100 1000 8 a 0 : Pof ι).lastSent = a := rfl
  refine ⟨a, base, [.arrive pi b 0, .event 0], ha, ⟨?_, ⟨?_, ?_⟩, trivial⟩, ⟨?_, ?_, trivial⟩, ?_⟩
  · exact Nat.le_refl 0
  · exact Nat.le_of_eq hone.clock
  · rw [hone.evfd]
    decide
  · intro n hn
    rw [pofNumbers, arrivingNumber_taken pi 0 (seqIsOam_of_lt b hb) (pofStart_room a),
      hempty, hlast, Nat.mod_eq_of_lt hb] at hn
    exact hwindow n hn
  · intro n hn
    rw [pofNumbers, hone.queue, hone.lastSent] at hn
    exact hwindow n hn
  · intro halike
    have hshift : shiftSequence c b = shiftNumber c b := by
      unfold shiftSequence
      rw [Nat.div_eq_of_lt hb, Nat.zero_mul, Nat.zero_add, Nat.mod_eq_of_lt hb]
    unfold ForwardAlike at halike
    rw [map_cons, map_cons, map_nil, shiftInput, shiftInput, hshift,
      packets_single pi a b hb, packets_single pi _ (shiftNumber c b)
        (Nat.mod_lt _ (by decide))] at halike
    refine hdiffer ?_
    grind

/-- Runs moved by a constant. A run and the moved run forward the same packets at
the same steps, whenever at each step all numbers present wrap or none does.
Without that there is a run that is close together and is changed, for every
constant that moves numbers at all. -/
theorem pofRun_shift (c : Nat) :
    (∀ (maxDelay takeAnyTime queueMaxLen lastSent start : Nat) (inputs : List (PofInput ι)),
      lastSent < 65536 →
      EveryStep pofStep (SameSide c)
        (pofStart maxDelay takeAnyTime queueMaxLen lastSent start) inputs →
      ForwardAlike (pofStart maxDelay takeAnyTime queueMaxLen lastSent start)
        (pofStart maxDelay takeAnyTime queueMaxLen (shiftNumber c lastSent) start) inputs
        (inputs.map (shiftInput c))) ∧
    (ι → c % 65536 ≠ 0 →
      ∃ lastSent base inputs, lastSent < 65536 ∧
        EveryStep pofStep PofPossible (pofStart 100 1000 8 lastSent 0 : Pof ι) inputs ∧
        EveryStep pofStep (InWindow base) (pofStart 100 1000 8 lastSent 0) inputs ∧
        ¬ ForwardAlike (pofStart 100 1000 8 lastSent 0)
          (pofStart 100 1000 8 (shiftNumber c lastSent) 0) inputs
          (inputs.map (shiftInput c))) := by
  refine ⟨?_, exists_not_forwardAlike (c := c)⟩
  intro maxDelay takeAnyTime queueMaxLen lastSent start inputs hlast hside
  exact forwardAlike_of_sameSide hlast hside

/-- Packets 8 and 7, the first of which has to wait, moved to 65530 and 65529. -/
theorem pofRun_shift_in_order :
    ForwardAlike (pofStart 100 1000 8 6 0 : Pof Nat) (pofStart 100 1000 8 65528 0)
      [.arrive 0 8 0, .event 0, .arrive 1 7 1, .event 1]
      [.arrive 0 65530 0, .event 0, .arrive 1 65529 1, .event 1] :=
  (pofRun_shift 65522).1 100 1000 8 6 0 [.arrive 0 8 0, .event 0, .arrive 1 7 1, .event 1]
    (by decide) (by decide +kernel)

/-- After packet 65535 packet 1 comes before packet 0. It is not held back, as it
would be anywhere else, so the two are forwarded in the wrong order. -/
theorem pofRun_shift_wrap :
    EveryStep pofStep PofPossible (pofStart 100 1000 8 65534 0 : Pof Nat)
        [.arrive 0 65535 0, .event 0, .arrive 1 1 1, .event 1, .arrive 2 0 2, .event 2] ∧
      EveryStep pofStep (InWindow 65534) (pofStart 100 1000 8 65534 0 : Pof Nat)
        [.arrive 0 65535 0, .event 0, .arrive 1 1 1, .event 1, .arrive 2 0 2, .event 2] ∧
      EveryStep pofStep PofPossible
        (pofStart 100 1000 8 (shiftNumber 10 65534) 0 : Pof Nat)
        ([.arrive 0 65535 0, .event 0, .arrive 1 1 1, .event 1, .arrive 2 0 2, .event 2].map
          (shiftInput 10)) ∧
      ¬ ForwardAlike (pofStart 100 1000 8 65534 0 : Pof Nat)
        (pofStart 100 1000 8 (shiftNumber 10 65534) 0)
        [.arrive 0 65535 0, .event 0, .arrive 1 1 1, .event 1, .arrive 2 0 2, .event 2]
        ([.arrive 0 65535 0, .event 0, .arrive 1 1 1, .event 1, .arrive 2 0 2, .event 2].map
          (shiftInput 10)) := by
  decide +kernel

end Dnt
