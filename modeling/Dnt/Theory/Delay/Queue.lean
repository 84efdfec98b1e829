import Mathlib.Data.List.Pairwise
import Mathlib.Data.List.Sort
import Dnt.Library.Stock
import Dnt.Core.Delay

/-!
# Deadlines in Order

What the delay thread does with its packets, over every run: whatever it finds in
the mailbox, whatever the time stamps and delays are, and whatever the clock says. The
last look into a retired mailbox uses the flush signal as if it were a packet.

## Main definitions

* `DelayOk`: The list is sorted, and its elements are different objects.
* `DelayMove`, `DelayAccounts`: What a step can do, and what it does to the packets.
* `KeepsDeadlines`: Packets leave by their deadlines, and none is lost or sent twice.

## Theorems

* `delayRun_keepsDeadlines_iff`: A run is as it should be if and only if the signal never
  turns up in that last look.
-/

namespace Dnt

open Mealy

variable {ι : Type*}
variable {t : DelayThread ι}

/-- The first element is not to be sent after the second. -/
def DeadlineLe (a b : DelayElem ι) : Prop :=
  ¬ timespecGt a.deadline b.deadline

instance : DecidableRel (@DeadlineLe ι) :=
  fun a b => inferInstanceAs (Decidable (¬ timespecGt a.deadline b.deadline))

instance : Std.Total (@DeadlineLe ι) := by
  refine ⟨fun a b => ?_⟩
  by_cases h : timespecGt a.deadline b.deadline
  · exact Or.inr (timespecGt_asymm h)
  · exact Or.inl h

instance : IsTrans (DelayElem ι) DeadlineLe :=
  ⟨fun _ _ _ => not_timespecGt_trans⟩

open List

theorem queueLink_eq_orderedInsert (n : DelayElem ι) (l : List (DelayElem ι)) :
    queueLink n l = l.orderedInsert DeadlineLe n := by
  induction l with
  | nil => rfl
  | cons iter rest ih =>
    unfold queueLink
    rw [orderedInsert_cons]
    by_cases hgt : timespecGt n.deadline iter.deadline
    · have hle : ¬ DeadlineLe n iter := not_not_intro hgt
      rw [if_pos hgt, if_neg hle, ih]
    · have hle : DeadlineLe n iter := hgt
      rw [if_neg hgt, if_pos hle]

/-- The list is sorted, and its elements are different objects. A thread that is
leaving has an empty list. -/
structure DelayOk (t : DelayThread ι) : Prop where
  sorted : t.queue.Pairwise DeadlineLe
  fresh : ∀ e ∈ t.queue, e.addr < t.nextAddr
  distinct : t.queue.Pairwise fun a b => a.addr ≠ b.addr
  empty : t.phase ≠ .waiting → t.queue = []

/-- No packet in the list should have been sent before this one. -/
def EarliestSent (s : Sending ι) : Prop :=
  ∀ e ∈ s.queue, DeadlineLe s.elem e

/-- What one step does: the invariant stays, the packets taken in and those in
the list before are the packets sent and those in the list after, and only
earliest packets are sent. -/
structure DelayAccounts (t : DelayThread ι) (r : DelayThread ι × DelayOutput ι) : Prop where
  ok : DelayOk r.1
  perm : (r.2.taken.toList ++ t.queue).Perm (r.2.sent.map Sending.elem ++ r.1.queue)
  earliest : ∀ s ∈ r.2.sent, EarliestSent s
  nextAddr_le : t.nextAddr ≤ r.1.nextAddr
  taken_addr : ∀ e, r.2.taken = some e → t.nextAddr ≤ e.addr ∧ e.addr < r.1.nextAddr

theorem delayAccounts_phase (hok : DelayOk t) {phase : DelayPhase}
    (hempty : phase ≠ .waiting → t.queue = []) :
    DelayAccounts t ({ t with phase := phase }, .silent) := by
  refine ⟨⟨hok.sorted, hok.fresh, hok.distinct, hempty⟩, List.Perm.refl _, ?_, Nat.le_refl _, ?_⟩
  · exact forall_mem_nil _
  · intro e he
    cases he

theorem queuePush_accounts (hok : DelayOk t) {phase : DelayPhase} (hphase : phase = .waiting)
    (p : DelayedPacket ι) (now later : Timespec) :
    DelayAccounts t (queuePush { t with phase := phase } p now later) := by
  have hperm := perm_orderedInsert DeadlineLe (newDelayElem t.nextAddr p now) t.queue
  rw [← queueLink_eq_orderedInsert] at hperm
  refine ⟨⟨?_, ?_, ?_, ?_⟩, hperm.symm, ?_, Nat.le_succ _, ?_⟩
  · simp only [queuePush, queueLink_eq_orderedInsert]
    exact hok.sorted.orderedInsert _ _
  · intro e he
    rcases mem_cons.mp (hperm.subset he) with rfl | he
    · exact Nat.lt_succ_self _
    · exact Nat.lt_succ_of_lt (hok.fresh e he)
  · refine (hperm.pairwise_iff fun hne => hne.symm).mpr (pairwise_cons.mpr ⟨?_, hok.distinct⟩)
    exact fun e he => Nat.ne_of_gt (hok.fresh e he)
  · exact fun hne => absurd hphase hne
  · exact forall_mem_nil _
  · intro e he
    cases he
    exact ⟨Nat.le_refl _, Nat.lt_succ_self _⟩

theorem earliestSent_head {f : DelayElem ι} {rest : List (DelayElem ι)}
    (h : (f :: rest).Pairwise DeadlineLe) : EarliestSent ⟨f :: rest, f⟩ := by
  intro e he
  rcases mem_cons.mp he with rfl | he
  · exact fun hgt => timespecGt_asymm hgt hgt
  · exact (pairwise_cons.mp h).1 e he

theorem queueSendFirst_accounts (hok : DelayOk t) (now : Timespec) (hphase : t.phase = .waiting) :
    DelayAccounts t (queueSendFirst t now) := by
  cases hqueue : t.queue with
  | nil =>
    rw [queueSendFirst_nil now hqueue]
    exact delayAccounts_phase hok fun _ => hqueue
  | cons f rest =>
    have hsub : rest.Sublist t.queue := by
      rw [hqueue]
      exact sublist_cons_self f rest
    rw [queueSendFirst_cons now hqueue]
    refine ⟨⟨hok.sorted.sublist hsub, ?_, hok.distinct.sublist hsub, ?_⟩, ?_, ?_, Nat.le_refl _, ?_⟩
    · exact fun e he => hok.fresh e (hsub.subset he)
    · exact fun hne => absurd hphase hne
    · rw [hqueue]
      exact List.Perm.refl _
    · refine forall_mem_singleton.mpr (earliestSent_head ?_)
      rw [← hqueue]
      exact hok.sorted
    · intro e he
      cases he

theorem elem_queueSendAll (l : List (DelayElem ι)) : (queueSendAll l).map Sending.elem = l := by
  induction l with
  | nil => rfl
  | cons f rest ih => rw [queueSendAll, map_cons, ih]

theorem earliest_queueSendAll {l : List (DelayElem ι)} (h : l.Pairwise DeadlineLe) :
    ∀ s ∈ queueSendAll l, EarliestSent s := by
  induction l with
  | nil => exact forall_mem_nil _
  | cons f rest ih =>
    refine forall_mem_cons.mpr ⟨earliestSent_head h, ?_⟩
    exact ih (pairwise_cons.mp h).2

theorem queueSendAll_accounts (hok : DelayOk t) : DelayAccounts t
      ({ t with queue := [], phase := .exiting }, ⟨none, queueSendAll t.queue, none, false⟩) := by
  refine ⟨⟨List.Pairwise.nil, forall_mem_nil _, List.Pairwise.nil, fun _ => rfl⟩, ?_,
    earliest_queueSendAll hok.sorted, Nat.le_refl _, ?_⟩
  · rw [elem_queueSendAll, append_nil]
    exact List.Perm.refl _
  · intro e he
    cases he

/-- What a step can do: take a packet, send the first one, send all of them, or go from one
phase to another. -/
inductive DelayMove (t : DelayThread ι) : DelayThread ι × DelayOutput ι → Prop where
  | push (p : DelayedPacket ι) (now later : Timespec) :
      DelayMove t (queuePush { t with phase := .waiting } p now later)
  | send (now : Timespec) (hphase : t.phase = .waiting) : DelayMove t (queueSendFirst t now)
  | flush :
      DelayMove t
        ({ t with queue := [], phase := .exiting }, ⟨none, queueSendAll t.queue, none, false⟩)
  | turn (phase : DelayPhase) (hphase : t.phase ≠ .waiting ∨ phase = t.phase) :
      DelayMove t ({ t with phase := phase }, .silent)

theorem delayStep_move (t : DelayThread ι) (input : DelayInput ι) :
    DelayMove t (delayStep t input) := by
  unfold delayStep
  split
  · -- the top of the loop
    rename_i msg now later hphase
    split
    · exact .flush
    · rename_i p _
      have hpush : DelayMove t (queuePush { t with phase := .waiting } p now later) :=
        .push p now later
      rw [← hphase] at hpush
      exact hpush
    · exact .send now hphase
  · rename_i active hphase
    exact .turn _ (Or.inl (by rw [hphase]; decide))
  · -- the last look into the mailbox
    rename_i msg now later hphase
    have hleft : t.phase ≠ .waiting := by
      rw [hphase]
      decide
    split
    · exact .turn .crashed (Or.inl hleft)
    · exact .push _ now later
    · exact .turn .exiting (Or.inl hleft)
  · rename_i hphase
    exact .turn .gone (Or.inl (by rw [hphase]; decide))
  · exact .turn t.phase (Or.inr rfl)

theorem delayStep_accounts (hok : DelayOk t) (input : DelayInput ι) :
    DelayAccounts t (delayStep t input) := by
  have hmove := delayStep_move t input
  generalize delayStep t input = r at hmove
  cases hmove with
  | push p now later => exact queuePush_accounts hok rfl p now later
  | send now hphase => exact queueSendFirst_accounts hok now hphase
  | flush => exact queueSendAll_accounts hok
  | turn phase hphase =>
    refine delayAccounts_phase hok fun hne => ?_
    rcases hphase with hleft | rfl
    · exact hok.empty hleft
    · exact hok.empty hne

/-! ## Runs -/

/-- The thread finds the flush signal when it looks into its mailbox. -/
def TakesFlush (t : DelayThread ι) : DelayInput ι → Prop
  | .pop msg _ _ => t.phase = .waiting ∧ t.timeoutUs > 0 ∧ msg = some .flushSignal
  | .popAgain msg _ _ => t.phase = .sleeping ∧ msg = some .flushSignal
  | _ => False

/-- What is expected of a step. The list is sorted after it, it only sends
packets with the earliest deadline, and a flush sends all packets and ends
the thread. The flush signal is not used for anything else. -/
structure KeepsDeadlines (t : DelayThread ι) (input : DelayInput ι) : Prop where
  sorted : (delayStep t input).1.queue.Pairwise DeadlineLe
  earliest : ∀ s ∈ (delayStep t input).2.sent, EarliestSent s
  flush : TakesFlush t input →
    (delayStep t input).2.sent.map Sending.elem = t.queue ∧ (delayStep t input).1.queue = [] ∧
      (delayStep t input).1.phase = .exiting

/-- The flush signal is not what the last look into the mailbox finds. -/
def KnowsFlush (t : DelayThread ι) : DelayInput ι → Prop
  | .popAgain msg _ _ => t.phase = .sleeping → msg ≠ some .flushSignal
  | _ => True

instance [DecidableEq ι] (t : DelayThread ι) (input : DelayInput ι) :
    Decidable (KnowsFlush t input) := by
  cases input <;> unfold KnowsFlush <;> infer_instance

theorem delayStep_flush (now later : Timespec) (hphase : t.phase = .waiting)
    (htimeout : t.timeoutUs > 0) : delayStep t (.pop (some .flushSignal) now later) =
      ({ t with queue := [], phase := .exiting }, ⟨none, queueSendAll t.queue, none, false⟩) := by
  simp only [delayStep, hphase, if_pos htimeout]

theorem delayStep_lateFlush (now later : Timespec) (hphase : t.phase = .sleeping) :
    delayStep t (.popAgain (some .flushSignal) now later) =
      ({ t with phase := .crashed }, .silent) := by
  simp only [delayStep, hphase]

theorem keepsDeadlines_iff (hok : DelayOk t) (input : DelayInput ι) :
    KeepsDeadlines t input ↔ KnowsFlush t input := by
  have haccounts := delayStep_accounts hok input
  cases input with
  | pop msg now later =>
    refine iff_of_true ⟨haccounts.ok.sorted, haccounts.earliest, ?_⟩ trivial
    rintro ⟨hphase, htimeout, rfl⟩
    rw [delayStep_flush now later hphase htimeout]
    exact ⟨elem_queueSendAll t.queue, rfl, rfl⟩
  | check active =>
    refine iff_of_true ⟨haccounts.ok.sorted, haccounts.earliest, ?_⟩ trivial
    exact fun hno => hno.elim
  | popAgain msg now later =>
    constructor
    · rintro hkeeps hphase rfl
      have hend := (hkeeps.flush ⟨hphase, rfl⟩).2.2
      rw [delayStep_lateFlush now later hphase] at hend
      cases hend
    · intro hknows
      refine ⟨haccounts.ok.sorted, haccounts.earliest, ?_⟩
      rintro ⟨hphase, hmsg⟩
      exact absurd hmsg (hknows hphase)
  | delete =>
    refine iff_of_true ⟨haccounts.ok.sorted, haccounts.earliest, ?_⟩ trivial
    exact fun hno => hno.elim

def delayTaken (outs : List (DelayOutput ι)) : List (DelayElem ι) :=
  outs.flatMap fun out => out.taken.toList

def delaySent (outs : List (DelayOutput ι)) : List (DelayElem ι) :=
  outs.flatMap fun out => out.sent.map Sending.elem

def delayStock : Stock (DelayThread ι) (DelayOutput ι) (DelayElem ι) where
  intake out := out.taken.toList
  outtake out := out.sent.map Sending.elem
  stock := DelayThread.queue
  next := DelayThread.nextAddr
  id := DelayElem.addr

theorem delayStep_numbered (hok : DelayOk t) (input : DelayInput ι) :
    delayStock.Numbered t (delayStep t input) := by
  have hstep := delayStep_accounts hok input
  exact delayStock.numbered_of_toList (delayStep t input).2.taken rfl hstep.nextAddr_le
    hstep.taken_addr

theorem newDelayThread_ok : DelayOk (newDelayThread : DelayThread ι) :=
  ⟨List.Pairwise.nil, forall_mem_nil _, List.Pairwise.nil, fun _ => rfl⟩

variable (inputs : List (DelayInput ι))

/-- The packets a run takes from the mailbox are those it sends and those still
in the list, and no packet is sent twice. -/
def AccountsForPackets : Prop :=
  (delayTaken (outputs delayStep newDelayThread inputs)).Perm
      (delaySent (outputs delayStep newDelayThread inputs) ++
        (final delayStep newDelayThread inputs).queue) ∧
    (delaySent (outputs delayStep newDelayThread inputs)).Nodup

theorem nodup_delayTaken : (delayTaken (outputs delayStep newDelayThread inputs)).Nodup := by
  have hnumbered := delayStock.run_numbered DelayOk (fun t input hok =>
    ⟨(delayStep_accounts hok input).ok, delayStep_numbered hok input⟩) _
    (newDelayThread_ok (ι := ι)) inputs
  exact hnumbered.2.imp fun hne heq => hne (congrArg DelayElem.addr heq)

theorem perm_delayTaken :
    (delayTaken (outputs delayStep newDelayThread inputs)).Perm
      (delaySent (outputs delayStep newDelayThread inputs) ++
        (final delayStep newDelayThread inputs).queue) := by
  have hperm := delayStock.run_balanced DelayOk (fun t input hok =>
    ⟨(delayStep_accounts hok input).ok, (delayStep_accounts hok input).perm⟩) _
    (newDelayThread_ok (ι := ι)) inputs
  rw [show delayStock.stock newDelayThread = ([] : List (DelayElem ι)) from rfl,
    append_nil] at hperm
  exact hperm

theorem accountsForPackets : AccountsForPackets inputs := by
  refine ⟨perm_delayTaken inputs, ?_⟩
  -- what is sent was taken, and nothing was taken twice
  have hnodup := (perm_delayTaken inputs).nodup_iff.mp (nodup_delayTaken inputs)
  exact (nodup_append.mp hnodup).1

/-- Runs of the thread. The list stays sorted, only packets with the earliest
deadline are sent, a flush sends everything, and no packet is lost or sent twice,
if and only if the last look into a retired mailbox never finds the flush signal. -/
theorem delayRun_keepsDeadlines_iff :
    (EveryStep delayStep KeepsDeadlines newDelayThread inputs ∧
        AccountsForPackets inputs) ↔
      EveryStep delayStep KnowsFlush newDelayThread inputs := by
  have hiff := everyStep_iff_of_invariant DelayOk KeepsDeadlines KnowsFlush
    (fun t input hok _ => (delayStep_accounts hok input).ok)
    (fun t input hok => keepsDeadlines_iff hok input) (newDelayThread_ok (ι := ι)) inputs
  rw [hiff]
  exact and_iff_left (accountsForPackets inputs)

/-- A minute passes without packets, the mailbox is retired, and then the flush
signal arrives from a thread that still knows the mailbox. -/
theorem lateFlush_crashes :
    ¬ (EveryStep delayStep KeepsDeadlines (newDelayThread : DelayThread Nat)
        [.pop none ⟨60, 0⟩ ⟨60, 0⟩, .check true,
          .popAgain (some .flushSignal) ⟨60, 10000000⟩ ⟨60, 10000000⟩] ∧
      AccountsForPackets ([.pop none ⟨60, 0⟩ ⟨60, 0⟩, .check true,
        .popAgain (some .flushSignal) ⟨60, 10000000⟩ ⟨60, 10000000⟩] :
          List (DelayInput Nat))) := by
  rintro ⟨⟨-, -, hlast, -⟩, -⟩
  exact absurd (hlast.flush ⟨rfl, rfl⟩).2.2 (by decide)

end Dnt
