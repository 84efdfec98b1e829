import Dnt.Theory.Pof.Order

/-!
# The Deadline the Worker Waits For

The worker should wait for the earliest deadline in the buffer. It goes through the
buffer looking for deadlines that differ from the one it has, and ends up with that
of the last packet. If all deadlines are the same, it remembers no packet. A timeout then
lets out the head of the buffer, for which the worker has not waited.

## Main definitions

* `ChoosesEarliest`, `LastEarliest`: The earliest deadline is chosen, and only the last
  packet and some others have it.
* `ForwardsDue`, `HeadDue`: The packet that a timeout lets out has waited until its deadline,
  and so has the head if that is it.

## Theorems

* `getNextDeadline_iff`: The earliest deadline is chosen just if the last packet has it and
  not all have, and timeouts let out due packets just if they do so with the head.
* `pofRun_empties`: As many timeouts as there are packets in the buffer empty it.
-/

namespace Dnt

open Mealy

variable {ι : Type*}
variable {pof : Pof ι}

/-! ## The choice -/

open List

theorem scanDeadlines_fst (l : List (PofElem ι)) (ret : Nat) (next : Option (PofElem ι)) :
    (scanDeadlines l ret next).1 = (l.getLast?.map PofElem.forwardTime).getD ret := by
  induction l generalizing ret next with
  | nil => rfl
  | cons iter rest ih =>
    -- whether it differs or not, `ret` is the deadline of this packet afterwards
    have hiter : (scanDeadlines (iter :: rest) ret next).1 =
        (rest.getLast?.map PofElem.forwardTime).getD iter.forwardTime := by
      unfold scanDeadlines
      split_ifs with hne
      · exact ih _ _
      · rw [ih, not_not.mp hne]
    rw [hiter]
    cases rest with
    | nil => rfl
    | cons second rest =>
      rw [getLast?_cons_cons, getLast?_eq_getLast_of_ne_nil (cons_ne_nil _ _)]
      rfl

/-- The packet it ends up with has this deadline. There is none if all deadlines are the
one the loop began with. -/
theorem scanDeadlines_snd (l : List (PofElem ι)) (ret : Nat) (next : Option (PofElem ι)) :
    ((∀ e ∈ l, e.forwardTime = ret) ∧ (scanDeadlines l ret next).2 = next) ∨
      ∃ pe ∈ l, (scanDeadlines l ret next).2 = some pe ∧
        pe.forwardTime = (scanDeadlines l ret next).1 ∧ ∃ e ∈ l, e.forwardTime ≠ ret := by
  induction l generalizing ret next with
  | nil => exact Or.inl ⟨forall_mem_nil _, rfl⟩
  | cons iter rest ih =>
    unfold scanDeadlines
    split_ifs with hne
    · right
      rcases ih iter.forwardTime (some iter) with ⟨hall, hnext⟩ | ⟨pe, hpe, hnext, htime, -⟩
      · -- no other deadline behind this one
        refine ⟨iter, mem_cons_self, hnext, ?_, iter, mem_cons_self, hne⟩
        rw [scanDeadlines_fst]
        cases hlast : rest.getLast? with
        | none => rfl
        | some last => exact (hall last (mem_of_getLast? hlast)).symm
      · exact ⟨pe, mem_cons_of_mem iter hpe, hnext, htime, iter, mem_cons_self, hne⟩
    · rcases ih ret next with ⟨hall, hnext⟩ | ⟨pe, hpe, hnext, htime, e, he, hdiff⟩
      · left
        refine ⟨forall_mem_cons.mpr ⟨not_not.mp hne, hall⟩, hnext⟩
      · right
        exact ⟨pe, mem_cons_of_mem iter hpe, hnext, htime, e, mem_cons_of_mem iter he, hdiff⟩

/-- The choice in a buffer that is not empty: the deadline of the last packet, and a packet
with this deadline unless all have it. -/
theorem getNextDeadline_last (hlen : pof.queueLen = pof.queue.length) {last : PofElem ι}
    (hlast : pof.queue.getLast? = some last) : (getNextDeadline pof).2 = some last.forwardTime ∧
      (((∀ e ∈ pof.queue, e.forwardTime = last.forwardTime) ∧
          (getNextDeadline pof).1.nextToForward = none) ∨
        ∃ pe ∈ pof.queue, (getNextDeadline pof).1.nextToForward = some pe ∧
          pe.forwardTime = last.forwardTime ∧
          ∃ e ∈ pof.queue, e.forwardTime ≠ last.forwardTime) := by
  cases hqueue : pof.queue with
  | nil =>
    rw [hqueue] at hlast
    cases hlast
  | cons head rest =>
    have hpos : ¬ pof.queueLen = 0 := by
      rw [hlen, hqueue]
      exact Nat.succ_ne_zero _
    have hfst := scanDeadlines_fst (head :: rest) head.forwardTime none
    rw [← hqueue, hlast, Option.map_some, Option.getD_some] at hfst
    have hsnd := scanDeadlines_snd (head :: rest) head.forwardTime none
    unfold getNextDeadline
    rw [if_neg hpos, hqueue]
    rw [hqueue] at hfst
    simp only [hfst]
    refine ⟨trivial, ?_⟩
    rcases hsnd with ⟨hall, hnone⟩ | ⟨pe, hpe, hnext, htime, e, he, hdiff⟩
    · left
      have hsame : last.forwardTime = head.forwardTime :=
        hall last (hqueue ▸ mem_of_getLast? hlast)
      refine ⟨fun e he => (hall e he).trans hsame.symm, hnone⟩
    · right
      refine ⟨pe, hpe, hnext, htime.trans hfst, ?_⟩
      -- one of two different deadlines is not the last one
      by_cases heq : e.forwardTime = last.forwardTime
      · exact ⟨head, mem_cons_self, fun h => hdiff (heq.trans h.symm)⟩
      · exact ⟨e, he, heq⟩

/-- The deadline is the earliest one in the buffer, and the packet that is remembered has
it. -/
def ChoosesEarliest (pof : Pof ι) : Prop :=
  ∃ pe ∈ pof.queue, (getNextDeadline pof).1.nextToForward = some pe ∧
    (getNextDeadline pof).2 = some pe.forwardTime ∧
    ∀ e ∈ pof.queue, pe.forwardTime ≤ e.forwardTime

/-- The last packet has the earliest deadline, and not all packets have it. -/
def LastEarliest (queue : List (PofElem ι)) : Prop :=
  ∃ last ∈ queue.getLast?, (∀ e ∈ queue, last.forwardTime ≤ e.forwardTime) ∧
    ∃ e ∈ queue, e.forwardTime ≠ last.forwardTime

instance (pof : Pof ι) [DecidableEq ι] : Decidable (ChoosesEarliest pof) :=
  inferInstanceAs (Decidable (∃ pe ∈ pof.queue, _ ∧ _ ∧ _))

theorem choosesEarliest_iff (pof : Pof ι) (hlen : pof.queueLen = pof.queue.length)
    (hne : pof.queue ≠ []) : ChoosesEarliest pof ↔ LastEarliest pof.queue := by
  obtain ⟨last, hlast⟩ := Option.ne_none_iff_exists'.mp (mt getLast?_eq_none_iff.mp hne)
  obtain ⟨hdeadline, hnext⟩ := getNextDeadline_last hlen hlast
  constructor
  · rintro ⟨pe, hpe, hsome, htime, hmin⟩
    rw [hdeadline, Option.some.injEq] at htime
    refine ⟨last, hlast, fun e he => htime ▸ hmin e he, ?_⟩
    rcases hnext with ⟨-, hnone⟩ | ⟨-, -, -, -, hdiff⟩
    · rw [hnone] at hsome
      cases hsome
    · exact hdiff
  · rintro ⟨last', hlast', hmin, e, he, hdiff⟩
    cases hlast.symm.trans hlast'
    rcases hnext with ⟨hall, -⟩ | ⟨pe, hpe, hsome, htime, -⟩
    · exact absurd (hall e he) hdiff
    · refine ⟨pe, hpe, hsome, ?_, ?_⟩
      · rw [hdeadline, htime]
      · rw [htime]
        exact hmin

/-! ## Timeouts -/

/-- The packet a timeout lets out has waited until its deadline. -/
def ForwardsDue (pof : Pof ι) : PofInput ι → Prop
  | .timeout now =>
    ∀ f ∈ (pofStep pof (.timeout now)).2.forwarded.head?, f.pe.forwardTime ≤ now
  | _ => True

/-- The head of the buffer has waited until its deadline, if it is what a timeout lets
out. -/
def HeadDue (pof : Pof ι) : PofInput ι → Prop
  | .timeout now =>
    pof.takeAny = true ∨ pof.nextToForward = none →
      ∀ pe ∈ pof.queue.head?, pe.forwardTime ≤ now
  | _ => True

instance (pof : Pof ι) (input : PofInput ι) : Decidable (ForwardsDue pof input) :=
  match input with
  | .arrive .. | .event _ | .timeout _ => by dsimp only [ForwardsDue]; infer_instance

instance (pof : Pof ι) (input : PofInput ι) : Decidable (HeadDue pof input) :=
  match input with
  | .arrive .. | .event _ | .timeout _ => by dsimp only [HeadDue]; infer_instance

/-- The worker sleeps at least until the deadline of the packet it has remembered. -/
def NextAwaited (pof : Pof ι) : Prop :=
  ∀ pe, pof.nextToForward = some pe → pe.forwardTime ≤ pof.wakeup

theorem pofWait_awaited (hok : BufferOk pof) (now : Nat) : NextAwaited (pofWait pof now) := by
  intro pe hpe
  cases hlast : pof.queue.getLast? with
  | none =>
    -- an empty buffer, and no packet
    have hnil := getLast?_eq_none_iff.mp hlast
    have hzero : pof.queueLen = 0 := hok.queueLen_eq_zero_iff.mpr hnil
    rw [show (pofWait pof now).nextToForward = none by
      simp only [pofWait, getNextDeadline, if_pos hzero]] at hpe
    cases hpe
  | some last =>
    obtain ⟨hdeadline, hnext⟩ := getNextDeadline_last hok.length hlast
    have hsome : (getNextDeadline pof).1.nextToForward = some pe := hpe
    have htime : pe.forwardTime = last.forwardTime := by
      rcases hnext with ⟨-, hnone⟩ | ⟨pe', -, hsome', htime, -⟩
      · rw [hnone] at hsome
        cases hsome
      · rw [hsome'] at hsome
        cases hsome
        exact htime
    simp only [pofWait, hdeadline, htime]
    split_ifs with hlater
    · exact (Nat.add_sub_of_le hlater.le).ge
    · exact (not_lt.mp hlater).trans (Nat.le_add_right now _)

theorem pofStep_awaited (hok : PofOk pof) (h : NextAwaited pof) (input : PofInput ι) :
    NextAwaited (pofStep pof input).1 := by
  cases input with
  | arrive pi sequence now =>
    rcases pofStep_arrive_cases pof pi sequence now with ⟨-, heq⟩ | ⟨-, -, heq⟩ | ⟨-, -, heq⟩
    all_goals
      rw [heq]
      exact h
  | event now => exact pofWait_awaited (pofEvent_drained hok).ok now
  | timeout now => exact pofWait_awaited (pofExpire_drained hok).ok now

theorem pktToSend_timeout (pof : Pof ι) :
    pktToSend pof pofTimeout =
      if pof.takeAny = true ∨ pof.nextToForward = none then pof.queue.head?
      else pof.nextToForward := by
  unfold pktToSend
  cases htake : pof.takeAny with
  | true => rfl
  | false =>
    cases hnext : pof.nextToForward with
    | none | some pe => rfl

theorem pofExpire_lets_out (hok : PofOk pof) (hpos : pof.queueLen ≠ 0) :
    ∃ pe r, pktToSend pof pofTimeout = some pe ∧ pe ∈ pof.queue ∧
      OrderlyFrom (pofSent pof false pe) r ∧ pofExpire pof = (r.1, ⟨pof, pe⟩ :: r.2) := by
  rw [pofExpire_filled hpos]
  rcases pofTryForward_cases pofTimeout hok.toBufferOk hok.next with
    ⟨-, hno | hno⟩ | ⟨pe, r, -, hpkt, hpe, hrest, heq⟩
  · exact absurd hno (by decide)
  · -- no packet to start with means an empty buffer
    rw [pktToSend_timeout] at hno
    split_ifs at hno with hhead
    · exact absurd (hok.queueLen_eq_zero_iff.mpr (head?_eq_none_iff.mp hno)) hpos
    · exact absurd (Or.inr hno) hhead
  · exact ⟨pe, r, hpkt, hpe, hrest, heq⟩

theorem forwardsDue_iff (hok : PofOk pof) (hawaited : NextAwaited pof) {input : PofInput ι}
    (hpossible : PofPossible pof input) : ForwardsDue pof input ↔ HeadDue pof input := by
  cases input with
  | arrive pi sequence now | event now => exact Iff.rfl
  | timeout now =>
    by_cases hzero : pof.queueLen = 0
    · -- nothing is let out
      refine iff_of_true ?_ ?_
      · intro f hf
        simp only [pofStep, pofExpire_empty hok.toBufferOk hzero, head?_nil] at hf
        cases hf
      · intro _ pe hpe
        rw [hok.queueLen_eq_zero_iff.mp hzero] at hpe
        cases hpe
    · obtain ⟨pe, r, hpkt, -, -, heq⟩ := pofExpire_lets_out hok hzero
      rw [pktToSend_timeout] at hpkt
      simp only [ForwardsDue, HeadDue, pofStep, heq, head?_cons, Option.mem_def,
        Option.some.injEq, forall_eq']
      split_ifs at hpkt with hhead
      · rw [hpkt]
        simp [hhead, forall_eq']
      · -- the worker has slept until the deadline of this packet
        refine iff_of_true ?_ fun h => absurd h hhead
        exact (hawaited pe hpkt).trans hpossible.2

/-- Over a run, a timeout always lets out a packet whose time has come if and only if the
time of the head has come whenever the head is let out. -/
theorem pofRun_forwardsDue_iff (maxDelay takeAnyTime queueMaxLen start : Nat)
    (inputs : List (PofInput ι)) (hpossible : EveryStep pofStep PofPossible
      (pofInit (newPof maxDelay takeAnyTime queueMaxLen) start) inputs) :
    EveryStep pofStep ForwardsDue (pofInit (newPof maxDelay takeAnyTime queueMaxLen) start) inputs ↔
      EveryStep pofStep HeadDue
        (pofInit (newPof maxDelay takeAnyTime queueMaxLen) start) inputs := by
  refine everyStep_iff_of_possible (fun pof => PofOk pof ∧ NextAwaited pof) PofPossible
    ForwardsDue HeadDue ?_ ?_ ?_ inputs hpossible
  · intro pof input hinv _
    exact ⟨(pofStep_accounts hinv.1 input).ok, pofStep_awaited hinv.1 hinv.2 input⟩
  · exact fun pof input hinv hposs => forwardsDue_iff hinv.1 hinv.2 hposs
  · refine ⟨(pofInit_ok maxDelay takeAnyTime queueMaxLen start).1, pofWait_awaited ?_ start⟩
    rw [pofReset_of_nil rfl]
    exact ⟨List.Pairwise.nil, rfl, forall_mem_nil _, List.Pairwise.nil⟩

/-- The choice of a deadline from a buffer that is not empty, and what becomes of it in
every run. The earliest deadline is chosen if and only if the last packet has it and
not all have it. Timeouts always let out a packet whose time has come if and only if the
time of the head has come whenever it is let out without having been waited for. -/
theorem getNextDeadline_iff :
    (∀ pof : Pof ι, pof.queueLen = pof.queue.length → pof.queue ≠ [] →
      (ChoosesEarliest pof ↔ LastEarliest pof.queue)) ∧
    ∀ (maxDelay takeAnyTime queueMaxLen start : Nat) (inputs : List (PofInput ι)),
      EveryStep pofStep PofPossible
        (pofInit (newPof maxDelay takeAnyTime queueMaxLen) start) inputs →
      (EveryStep pofStep ForwardsDue
          (pofInit (newPof maxDelay takeAnyTime queueMaxLen) start) inputs ↔
        EveryStep pofStep HeadDue
          (pofInit (newPof maxDelay takeAnyTime queueMaxLen) start) inputs) :=
  ⟨choosesEarliest_iff, pofRun_forwardsDue_iff⟩

/-- A buffer in which packet 7, the last one, has the earlier deadline. -/
def overtakenBuffer : Pof Nat :=
  { newPof 100 1000 8 with queueLen := 2, queue := [⟨1, 1, 5, 120⟩, ⟨0, 0, 7, 110⟩] }

/-- Packets 5 and 7 wait after packet 1 has been sent. At its deadline packet 7 is let out,
and packet 5 after it, as it is late now. -/
theorem getNextDeadline_iff_overtaken :
    ChoosesEarliest overtakenBuffer ∧
    EveryStep pofStep ForwardsDue (pofInit (newPof 100 1000 8 : Pof Nat) 0)
      [.arrive 0 1 0, .event 1, .arrive 1 7 10, .event 10, .arrive 2 5 20, .event 20,
        .timeout 110] := by
  constructor
  · refine (getNextDeadline_iff.1 overtakenBuffer rfl (cons_ne_nil _ _)).mpr ?_
    exact ⟨⟨0, 0, 7, 110⟩, rfl, by decide, ⟨1, 1, 5, 120⟩, by decide, by decide⟩
  · exact (getNextDeadline_iff.2 100 1000 8 0 _ (by decide +kernel)).mpr (by decide +kernel)

/-- Of two packets in order the later deadline is chosen, and from a buffer of one packet,
none. At the start, when packet 5 comes after packet 7, it is let out at the deadline of
packet 7, before its own. -/
theorem getNextDeadline_latest :
    (getNextDeadline { (newPof 100 1000 8 : Pof Nat) with
        queueLen := 2, queue := [⟨0, 0, 5, 110⟩, ⟨1, 1, 7, 120⟩] }).2 = some 120 ∧
    (getNextDeadline { (newPof 100 1000 8 : Pof Nat) with
        queueLen := 1, queue := [⟨0, 0, 5, 110⟩] }).1.nextToForward = none ∧
    ¬ ChoosesEarliest { (newPof 100 1000 8 : Pof Nat) with
        queueLen := 2, queue := [⟨0, 0, 5, 110⟩, ⟨1, 1, 7, 120⟩] } ∧
    ¬ ChoosesEarliest { (newPof 100 1000 8 : Pof Nat) with
        queueLen := 1, queue := [⟨0, 0, 5, 110⟩] } ∧
    EveryStep pofStep PofPossible (pofInit (newPof 100 1000 8 : Pof Nat) 0)
      [.arrive 0 7 0, .event 0, .arrive 1 5 50, .event 50, .timeout 100] ∧
    ¬ EveryStep pofStep ForwardsDue (pofInit (newPof 100 1000 8 : Pof Nat) 0)
      [.arrive 0 7 0, .event 0, .arrive 1 5 50, .event 50, .timeout 100] := by
  decide +kernel

/-! ## Emptying the buffer -/

def PofInput.isArrival : PofInput ι → Bool
  | .arrive .. => true
  | _ => false

def PofInput.isTimeout : PofInput ι → Bool
  | .timeout _ => true
  | _ => false

theorem pofStep_shrinks (hok : PofOk pof) {input : PofInput ι} (h : input.isArrival = false) :
    (pofStep pof input).1.queue.length ≤
      pof.queue.length - if input.isTimeout = true then 1 else 0 := by
  have hlen := (pofStep_accounts hok input).perm.length_eq
  rw [length_append, length_append, length_map] at hlen
  cases input with
  | arrive pi sequence now => cases h
  | event now => exact Nat.le.intro ((Nat.add_comm _ _).trans (hlen.symm.trans (Nat.zero_add _)))
  | timeout now =>
    have hsum : pof.queue.length =
        (pofExpire pof).2.length + (pofStep pof (.timeout now)).1.queue.length :=
      (Nat.zero_add _).symm.trans hlen
    rw [PofInput.isTimeout, if_pos rfl]
    by_cases hzero : pof.queueLen = 0
    · have hlength := hok.length
      omega
    · -- a packet is let out
      obtain ⟨pe, r, -, -, -, heq⟩ := pofExpire_lets_out hok hzero
      rw [heq, length_cons] at hsum
      omega

theorem pofRun_shrinks (hok : PofOk pof) {later : List (PofInput ι)}
    (hlater : ∀ input ∈ later, input.isArrival = false) :
    (final pofStep pof later).queue.length ≤
      pof.queue.length - later.countP PofInput.isTimeout := by
  induction later generalizing pof with
  | nil => exact Nat.le_refl _
  | cons input later ih =>
    rw [forall_mem_cons] at hlater
    have hstep := pofStep_shrinks hok hlater.1
    have hrest := ih (pofStep_accounts hok input).ok hlater.2
    rw [final_cons, countP_cons]
    omega

/-- No packet stays in the buffer. Once nothing arrives any more, as many timeouts as there
are packets in the buffer let all of them out, whatever events come in between. Then every
packet that was ever kept has been forwarded, and none of them twice. -/
theorem pofRun_empties (maxDelay takeAnyTime queueMaxLen start : Nat)
    (inputs later : List (PofInput ι)) (hlater : ∀ input ∈ later, input.isArrival = false)
    (hmany : (final pofStep (pofInit (newPof maxDelay takeAnyTime queueMaxLen) start)
      inputs).queueLen ≤ later.countP PofInput.isTimeout) :
    let outs := outputs pofStep (pofInit (newPof maxDelay takeAnyTime queueMaxLen) start)
      (inputs ++ later)
    (final pofStep (pofInit (newPof maxDelay takeAnyTime queueMaxLen) start)
        (inputs ++ later)).queue = [] ∧
      (pofForwarded outs).Perm (pofAccepted outs) ∧
      (pofForwarded outs).Pairwise fun a b => a.addr ≠ b.addr := by
  have hstart := @pofInit_ok ι maxDelay takeAnyTime queueMaxLen start
  obtain ⟨hok, -⟩ := pofRun_accounts _ hstart.1 inputs
  obtain ⟨-, -, hperm, hdistinct⟩ := pofRun_accounts _ hstart.1 (inputs ++ later)
  have hshrinks := pofRun_shrinks hok hlater
  rw [hok.length] at hmany
  have hempty : (final pofStep (pofInit (newPof maxDelay takeAnyTime queueMaxLen) start)
      (inputs ++ later)).queue = [] := by
    rw [final_append]
    exact length_eq_zero_iff.mp (by omega)
  rw [hempty, append_nil, hstart.2, append_nil] at hperm
  exact ⟨hempty, hperm.symm, (hperm.pairwise_iff fun h => Ne.symm h).mp hdistinct⟩

/-- Packets 7 and 9 are in the buffer when the stream ends, and an event is seen late. -/
theorem pofRun_empties_two :
    (final pofStep (pofInit (newPof 100 1000 8 : Pof Nat) 0)
      ([.arrive 0 1 0, .event 1, .arrive 1 7 10, .arrive 2 9 20] ++
        [.timeout 110, .event 110, .timeout 120])).queue = [] :=
  (pofRun_empties 100 1000 8 0 _ _ (by decide) (by decide +kernel)).1

end Dnt
