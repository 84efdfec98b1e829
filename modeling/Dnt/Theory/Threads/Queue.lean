import Dnt.Core.ThreadUtils

/-!
# Message Queues are First In, First Out

Whatever the threads around a queue do, its list only changes at the two steps under
the mutex. The semaphore and the pops it was granted to are as many as the messages in the
list and the pushes that have posted and not yet appended. An interrupted wait without a
timeout goes for the list all the same, and then there are too many pops.

## Main definitions

* `MqMoves`: What a step of a thread can be.
* `FirstInFirstOut`: Messages are taken out in the order in which they were put in.
* `SemaphoreCounts`: The balance of messages and pops, up to the pops that are too many.
* `PopsRight`: Every pop that gets to the list finds a message there.

## Theorems

* `mqRun_firstInFirstOut`: Every run is first in, first out, also with interrupted pops.
* `mqRun_popsRight_iff`: However a run goes on, its pops find messages, just if no wait
  without a timeout was interrupted.
-/

namespace Dnt

open Mealy Crew

open List

variable {α : Type*}

/-- A queue with the threads that use it. -/
abbrev MqCrew (α : Type*) := Crew (MessageQueue α) (MqCall α)

/-- The message of a push that is in the list, or was. -/
def MqCall.pushed? : MqCall α → Option α
  | .pushUnlock data => some data
  | .pushed data => some data
  | _ => none

/-- The message a pop has taken out of the list. -/
def MqCall.popped? : MqCall α → Option α
  | .popUnlock result => result
  | .popped result => result
  | _ => none

/-- The thread has the mutex. -/
def MqCall.inside : MqCall α → Bool
  | .pushPost _ => true
  | .pushInsert _ => true
  | .pushUnlock _ => true
  | .popRemove => true
  | .popUnlock _ => true
  | _ => false

/-- The push has posted the semaphore, and its message is not in the list yet. -/
def MqCall.posted : MqCall α → Bool
  | .pushInsert _ => true
  | _ => false

theorem MqCall.posted_inside (c : MqCall α) (h : c.posted = true) : c.inside = true := by
  cases c with
  | pushInsert data => rfl
  | _ => cases h

/-- The pop is to take a message, and has not taken it yet. -/
def MqCall.granted : MqCall α → Bool
  | .popLock => true
  | .popRemove => true
  | _ => false

/-- The thread has no part in any count. -/
structure MqCall.Quiet (c : MqCall α) : Prop where
  pushed? : c.pushed? = none
  popped? : c.popped? = none
  inside : c.inside = false
  posted : c.posted = false
  granted : c.granted = false

/-- A wait that ends without the semaphore and goes for the list all the same. -/
def MqCall.Careless (c : MqCall α) (x : WaitOutcome) : Prop :=
  ∃ usec < 0, c = .popWait usec ∧ (x = .interrupted ∨ x = .error)

/-- What a step of a thread can be, unless it is a careless one. -/
inductive MqMoves (s : MessageQueue α) : MqCall α → MessageQueue α → MqCall α → Prop where
  | stay (c : MqCall α) : MqMoves s c s c
  | wait {c c' : MqCall α} (hc : c.Quiet) (hc' : c'.Quiet) : MqMoves s c s c'
  | lockPush (data : α) (hfree : s.locked = false) :
    MqMoves s (.pushLock data) { s with locked := true } (.pushPost data)
  | post (data : α) :
    MqMoves s (.pushPost data) { s with semaphore := s.semaphore + 1 } (.pushInsert data)
  | insert (data : α) : MqMoves s (.pushInsert data)
      { s with queue := tqPush s.queue data, inserted := s.inserted ++ [data] } (.pushUnlock data)
  | unlockPush (data : α) : MqMoves s (.pushUnlock data) { s with locked := false } (.pushed data)
  | grant {c : MqCall α} (hc : c.Quiet) (hpos : 0 < s.semaphore) :
    MqMoves s c { s with semaphore := s.semaphore - 1 } .popLock
  | lockPop (hfree : s.locked = false) : MqMoves s .popLock { s with locked := true } .popRemove
  | remove : MqMoves s .popRemove
      { s with queue := (tqPop s.queue).2, removed := s.removed ++ (tqPop s.queue).1.toList }
      (.popUnlock (tqPop s.queue).1)
  | unlockPop (result : Option α) :
    MqMoves s (.popUnlock result) { s with locked := false } (.popped result)

theorem mqMoves_mqWait {s : MessageQueue α} {c waiting onFailure : MqCall α} {x : WaitOutcome}
    (hc : c.Quiet) (hwaiting : waiting.Quiet) (hfailure : x = .granted ∨ onFailure.Quiet) :
    MqMoves s c (mqWait s waiting onFailure x).1 (mqWait s waiting onFailure x).2 := by
  cases x with
  | granted =>
    simp only [mqWait]
    split_ifs with hzero
    · exact .wait hc hwaiting
    · exact .grant hc (Nat.pos_of_ne_zero hzero)
  | timeout | interrupted | error => exact .wait hc (hfailure.resolve_left nofun)

theorem mqMoves_mqMove (s : MessageQueue α) {c : MqCall α} {x : WaitOutcome}
    (hx : ¬ c.Careless x) : MqMoves s c (mqMove s c x).1 (mqMove s c x).2 := by
  cases c with
  | pushLock data =>
    simp only [mqMove]
    split_ifs with hlocked
    · exact .stay _
    · exact .lockPush data (Bool.not_eq_true _ ▸ hlocked)
  | pushPost data => exact .post data
  | pushInsert data => exact .insert data
  | pushUnlock data => exact .unlockPush data
  | popWait usec =>
    have hquiet : (MqCall.popWait usec : MqCall α).Quiet := ⟨rfl, rfl, rfl, rfl, rfl⟩
    simp only [mqMove]
    split_ifs
    · exact mqMoves_mqWait hquiet ⟨rfl, rfl, rfl, rfl, rfl⟩ (.inr ⟨rfl, rfl, rfl, rfl, rfl⟩)
    · exact mqMoves_mqWait hquiet hquiet (.inr ⟨rfl, rfl, rfl, rfl, rfl⟩)
    · exact mqMoves_mqWait hquiet hquiet (.inr ⟨rfl, rfl, rfl, rfl, rfl⟩)
    · exact mqMoves_mqWait hquiet hquiet (.inr hquiet)
    · -- a wait without a timeout that is not granted is careless
      refine mqMoves_mqWait hquiet hquiet (.inl ?_)
      cases x with
      | granted => rfl
      | timeout => contradiction
      | interrupted => exact absurd ⟨usec, by omega, rfl, .inl rfl⟩ hx
      | error => exact absurd ⟨usec, by omega, rfl, .inr rfl⟩ hx
  | popWaitAgain =>
    exact mqMoves_mqWait ⟨rfl, rfl, rfl, rfl, rfl⟩ ⟨rfl, rfl, rfl, rfl, rfl⟩
      (.inr ⟨rfl, rfl, rfl, rfl, rfl⟩)
  | popLock =>
    simp only [mqMove]
    split_ifs with hlocked
    · exact .stay _
    · exact .lockPop (Bool.not_eq_true _ ▸ hlocked)
  | popRemove => exact .remove
  | popUnlock result => exact .unlockPop result
  | pushed data | popped result => exact .stay _

theorem mqMove_careless (s : MessageQueue α) {c : MqCall α} {x : WaitOutcome}
    (hx : c.Careless x) : mqMove s c x = (s, .popLock) := by
  obtain ⟨usec, hneg, rfl, rfl | rfl⟩ := hx
  all_goals
    rw [mqMove, if_neg (by omega), if_neg (by omega)]
    rfl

/-- The messages of the pushes are those put into the list, the messages of the pops
are those taken out, and these are the first ones of those. -/
structure FirstInFirstOut (s : MqCrew α) : Prop where
  pushes : (s.collect MqCall.pushed?).Perm s.shared.inserted
  pops : (s.collect MqCall.popped?).Perm s.shared.removed
  order : s.shared.removed ++ s.shared.queue = s.shared.inserted

variable {shared : MessageQueue α} {i : Nat}

section

variable {s : MqCrew α} {c c' : MqCall α}

theorem FirstInFirstOut.change (h : FirstInFirstOut s) (hc : s.calls[i]? = some c)
    (hinserted : (c'.pushed?.toList ++ s.shared.inserted).Perm
      (c.pushed?.toList ++ shared.inserted))
    (hremoved : (c'.popped?.toList ++ s.shared.removed).Perm (c.popped?.toList ++ shared.removed))
    (horder : shared.removed ++ shared.queue = shared.inserted) :
    FirstInFirstOut ⟨shared, s.calls.set i c'⟩ := by
  have hpush := collect_move shared c' MqCall.pushed? hc
  have hpop := collect_move shared c' MqCall.popped? hc
  refine ⟨?_, ?_, horder⟩
  · exact (perm_append_left_iff _).mp (hpush.trans ((h.pushes.append_left _).trans hinserted))
  · exact (perm_append_left_iff _).mp (hpop.trans ((h.pops.append_left _).trans hremoved))

theorem firstInFirstOut_move (h : FirstInFirstOut s) (hc : s.calls[i]? = some c)
    (hmove : MqMoves s.shared c shared c') : FirstInFirstOut ⟨shared, s.calls.set i c'⟩ := by
  cases hmove with
  | insert data =>
    refine h.change hc (perm_append_singleton _ _).symm (.refl _) ?_
    simp only [tqPush]
    rw [← append_assoc, h.order]
  | remove =>
    refine h.change hc (.refl _) perm_append_comm ?_
    have horder := h.order
    cases hqueue : s.shared.queue with
    | nil | cons data rest => simpa [tqPop, hqueue] using horder
  | wait hquiet hquiet' =>
    refine h.change hc ?_ ?_ h.order
    · rw [hquiet.pushed?, hquiet'.pushed?]
    · rw [hquiet.popped?, hquiet'.popped?]
  | grant hquiet hpos =>
    refine h.change hc ?_ ?_ h.order
    · rw [hquiet.pushed?]
      rfl
    · rw [hquiet.popped?]
      rfl
  | _ => exact h.change hc (.refl _) (.refl _) h.order

theorem firstInFirstOut_start (h : FirstInFirstOut s) (hquiet : c.Quiet) :
    FirstInFirstOut ⟨s.shared, s.calls ++ [c]⟩ := by
  refine ⟨?_, ?_, h.order⟩
  · simpa [collect_start, hquiet.pushed?] using h.pushes
  · simpa [collect_start, hquiet.popped?] using h.pops

end

/-- What calls that begin keep, and every step of a thread, holds after every run. -/
theorem mqRun_invariant (I : MqCrew α → Prop) (P : MqCrew α → MqEvent α → Prop)
    (hpush : ∀ s data, I s → I ⟨s.shared, s.calls ++ [.pushLock data]⟩)
    (hpop : ∀ s usec, I s → I ⟨s.shared, s.calls ++ [.popWait usec]⟩)
    (hmove : ∀ s i c x, s.calls[i]? = some c → I s → P s (.move i x) →
      I ⟨(mqMove s.shared c x).1, s.calls.set i (mqMove s.shared c x).2⟩)
    (hs : I mqStart) (es : List (MqEvent α)) (hP : EveryStep mqStep P mqStart es) :
    I (mqRun es) := by
  refine final_invariant_of_everyStep I P (fun s e hI he => ?_) hs es hP
  cases e with
  | push data => exact hpush s data hI
  | pop usec => exact hpop s usec hI
  | move i x =>
    simp only [mqStep]
    cases hc : s.calls[i]? with
    | none => rwa [step_move_none x hc]
    | some c =>
      rw [step_move x hc]
      exact hmove s i c x hc hI he

/-- After any run the messages taken out are the first ones that were put in, those
still in the list come after them, and they are what the pops return. -/
theorem mqRun_firstInFirstOut (es : List (MqEvent α)) :
    FirstInFirstOut (mqRun es) ∧ (mqRun es).shared.removed <+: (mqRun es).shared.inserted := by
  have hinv : FirstInFirstOut (mqRun es) := by
    refine mqRun_invariant FirstInFirstOut (fun _ _ => True) ?_ ?_ ?_ ?_ es ?_
    · exact fun s data h => firstInFirstOut_start h ⟨rfl, rfl, rfl, rfl, rfl⟩
    · exact fun s usec h => firstInFirstOut_start h ⟨rfl, rfl, rfl, rfl, rfl⟩
    · intro s i c x hc h _
      by_cases hx : c.Careless x
      · rw [mqMove_careless _ hx]
        obtain ⟨usec, -, rfl, -⟩ := hx
        exact h.change hc (.refl _) (.refl _) h.order
      · exact firstInFirstOut_move h hc (mqMoves_mqMove _ hx)
    · exact ⟨List.Perm.nil, List.Perm.nil, rfl⟩
    · exact everyStep_true _ es
  exact ⟨hinv, ⟨_, hinv.order⟩⟩

/-! ### The semaphore -/

/-- The semaphore and the pops it was granted to are as many as the messages in the list
and on their way there, and the pops that were let through by a signal are the spare
ones. One thread at most has the mutex. -/
structure SemaphoreCounts (s : MqCrew α) (spare : Nat) : Prop where
  mutex : s.count MqCall.inside = s.shared.locked.toNat
  balance : s.shared.queue.length + s.count MqCall.posted + spare =
    s.shared.semaphore + s.count MqCall.granted

/-- A wait that ends without the semaphore and goes for the list all the same. -/
def MqEvent.Careless (s : MqCrew α) (e : MqEvent α) : Prop :=
  ∃ i usec x, e = .move i x ∧ s.calls[i]? = some (.popWait usec) ∧ usec < 0 ∧
    (x = .interrupted ∨ x = .error)

/-- A pop at the list finds a message, and does not get to the error branch. -/
def MqEvent.Finds (s : MqCrew α) (e : MqEvent α) : Prop :=
  ∀ i x, e = .move i x → s.calls[i]? = some .popRemove → s.shared.queue ≠ []

section

variable {s : MqCrew α} {spare : Nat} {c c' : MqCall α}

theorem SemaphoreCounts.change (h : SemaphoreCounts s spare) {spare' : Nat}
    (hc : s.calls[i]? = some c)
    (hmutex : s.shared.locked.toNat + c'.inside.toNat = shared.locked.toNat + c.inside.toNat)
    (hbalance : s.shared.semaphore + shared.queue.length + spare' + c'.posted.toNat
        + c.granted.toNat =
      shared.semaphore + s.shared.queue.length + spare + c.posted.toNat + c'.granted.toNat) :
    SemaphoreCounts ⟨shared, s.calls.set i c'⟩ spare' := by
  have hinside := count_move shared c' MqCall.inside hc
  have hposted := count_move shared c' MqCall.posted hc
  have hgranted := count_move shared c' MqCall.granted hc
  have := h.mutex
  have := h.balance
  constructor
  · show count _ _ = shared.locked.toNat
    omega
  · show shared.queue.length + count _ _ + spare' = shared.semaphore + count _ _
    omega

theorem SemaphoreCounts.inside_unique (h : SemaphoreCounts s spare) (hc : s.calls[i]? = some c)
    (hinside : c.inside = true) :
    s.shared.locked = true ∧ s.count MqCall.inside = 1 := by
  have hpos := count_pos hc hinside
  have hmutex := h.mutex
  cases hlocked : s.shared.locked with
  | true => exact ⟨rfl, by rw [hmutex, hlocked]; rfl⟩
  | false =>
    rw [hlocked] at hmutex
    simp only [Bool.toNat_false] at hmutex
    omega

theorem SemaphoreCounts.finds (h : SemaphoreCounts s spare) (hc : s.calls[i]? = some .popRemove) :
    s.shared.queue ≠ [] ∨ 0 < spare := by
  obtain ⟨-, hone⟩ := h.inside_unique hc rfl
  -- without this pop nobody has the mutex, so nobody is between posting and appending
  have hinside := count_move s.shared (.popped none) MqCall.inside hc
  have hposted := count_move s.shared (.popped none) MqCall.posted hc
  have hle := count_le (s := ⟨s.shared, s.calls.set i (.popped none)⟩) MqCall.posted_inside
  have hgranted := count_pos (p := MqCall.granted) hc rfl
  have hbalance := h.balance
  simp only [MqCall.inside, MqCall.posted, Bool.toNat_true, Bool.toNat_false] at hinside hposted
  by_cases hempty : s.shared.queue = []
  · rw [hempty, length_nil] at hbalance
    right
    omega
  · exact .inl hempty

/-- A step that is not careless adds no spare pop, and one is gone only if it has found the
list empty. -/
theorem SemaphoreCounts.move (h : SemaphoreCounts s spare) (hc : s.calls[i]? = some c)
    (hmove : MqMoves s.shared c shared c') :
    ∃ spare' ≤ spare, SemaphoreCounts ⟨shared, s.calls.set i c'⟩ spare' ∧
      ((c = .popRemove → s.shared.queue ≠ []) → spare ≤ spare') := by
  have hsame {s' : MqCrew α} (h' : SemaphoreCounts s' spare) : ∃ spare' ≤ spare,
      SemaphoreCounts s' spare' ∧ ((c = .popRemove → s.shared.queue ≠ []) → spare ≤ spare') :=
    ⟨spare, Nat.le_refl _, h', fun _ => Nat.le_refl _⟩
  cases hmove with
  | stay => exact hsame (h.change hc rfl rfl)
  | wait hquiet hquiet' =>
    refine hsame (h.change hc ?_ ?_)
    · rw [hquiet.inside, hquiet'.inside]
    · rw [hquiet.posted, hquiet'.posted, hquiet.granted, hquiet'.granted]
  | lockPush data hfree | lockPop hfree =>
    refine hsame (h.change hc ?_ rfl)
    rw [hfree]
    rfl
  | post data =>
    refine hsame (h.change hc rfl ?_)
    simp only [MqCall.posted, MqCall.granted, Bool.toNat_true, Bool.toNat_false]
    omega
  | insert data =>
    refine hsame (h.change hc rfl ?_)
    simp only [tqPush, MqCall.posted, MqCall.granted, Bool.toNat_true, Bool.toNat_false,
      length_append, length_singleton]
    omega
  | unlockPush data | unlockPop result =>
    refine hsame (h.change hc ?_ rfl)
    rw [(h.inside_unique hc rfl).1]
    rfl
  | grant hquiet hpos =>
    refine hsame (h.change hc ?_ ?_)
    · rw [hquiet.inside]
      rfl
    · rw [hquiet.posted, hquiet.granted]
      simp only [MqCall.posted, MqCall.granted, Bool.toNat_true, Bool.toNat_false]
      omega
  | remove =>
    cases hqueue : s.shared.queue with
    | nil =>
      -- this was one of the spare pops
      have hspare : 0 < spare := (h.finds hc).resolve_left fun hne => hne hqueue
      refine ⟨spare - 1, Nat.sub_le _ _, h.change hc rfl ?_, fun hno => absurd rfl (hno rfl)⟩
      simp only [tqPop, hqueue, MqCall.posted, MqCall.granted, Bool.toNat_true, Bool.toNat_false]
      omega
    | cons data rest =>
      refine ⟨spare, Nat.le_refl _, h.change hc rfl ?_, fun _ => Nat.le_refl _⟩
      simp only [tqPop, hqueue, MqCall.posted, MqCall.granted, Bool.toNat_true, Bool.toNat_false,
        length_cons]
      omega

theorem semaphoreCounts_start (h : SemaphoreCounts s spare) (hquiet : c.Quiet) :
    SemaphoreCounts ⟨s.shared, s.calls ++ [c]⟩ spare := by
  constructor
  · rw [count_start, hquiet.inside]
    exact h.mutex
  · rw [count_start, count_start, hquiet.posted, hquiet.granted]
    exact h.balance

theorem careless_move_iff {x : WaitOutcome} (hc : s.calls[i]? = some c) :
    MqEvent.Careless s (.move i x) ↔ c.Careless x := by
  constructor
  · rintro ⟨j, usec, y, heq, hj, hneg, hx⟩
    cases heq
    exact ⟨usec, hneg, Option.some_inj.mp (hc.symm.trans hj), hx⟩
  · rintro ⟨usec, hneg, rfl, hx⟩
    exact ⟨i, usec, x, rfl, hc, hneg, hx⟩

/-- What a step does to the count: the spare pops are as many as before, unless a careless step
makes one more, or one finds the list empty. -/
theorem recounts_step (h : SemaphoreCounts s spare) (e : MqEvent α) :
    ∃ spare', SemaphoreCounts (mqStep s e).1 spare' ∧ (¬ e.Careless s → spare' ≤ spare) ∧
      (e.Finds s → spare ≤ spare') ∧ (e.Careless s → 0 < spare') := by
  cases e with
  | push data | pop usec =>
    refine ⟨spare, semaphoreCounts_start h ⟨rfl, rfl, rfl, rfl, rfl⟩, fun _ => Nat.le_refl _,
      fun _ => Nat.le_refl _, ?_⟩
    rintro ⟨_, _, _, ⟨⟩, _⟩
  | move i x =>
    simp only [mqStep]
    cases hc : s.calls[i]? with
    | none =>
      rw [step_move_none x hc]
      refine ⟨spare, h, fun _ => Nat.le_refl _, fun _ => Nat.le_refl _, ?_⟩
      rintro ⟨j, usec, y, heq, hj, -⟩
      cases heq
      rw [hc] at hj
      cases hj
    | some c =>
      rw [step_move x hc, careless_move_iff hc]
      by_cases hx : c.Careless x
      · rw [mqMove_careless _ hx]
        have h' : SemaphoreCounts ⟨s.shared, s.calls.set i .popLock⟩ (spare + 1) := by
          obtain ⟨usec, -, rfl, -⟩ := hx
          refine h.change hc rfl ?_
          simp only [MqCall.posted, MqCall.granted, Bool.toNat_true, Bool.toNat_false]
          omega
        exact ⟨_, h', fun hno => absurd hx hno, fun _ => Nat.le_succ _, fun _ => Nat.succ_pos _⟩
      · obtain ⟨spare', hle, h', hfinds⟩ := h.move hc (mqMoves_mqMove _ hx)
        refine ⟨spare', h', fun _ => hle, fun hall => hfinds fun hremove => ?_,
          fun hno => absurd hno hx⟩
        exact hall i x rfl (hremove ▸ hc)

/-- Without a careless step from now on, a pop can come to an empty list. -/
def Starves (s : MqCrew α) : Prop :=
  ∃ more, EveryStep mqStep (fun s e => ¬ MqEvent.Careless s e) s more ∧
    ¬ EveryStep mqStep (fun s e => e.Finds s) s more

theorem starves_of_step (h : SemaphoreCounts s spare) (hspare : 0 < spare) {e : MqEvent α}
    (he : ¬ e.Careless s) (next : e.Finds s → ∀ spare', 0 < spare' →
      SemaphoreCounts (mqStep s e).1 spare' → Starves (mqStep s e).1) : Starves s := by
  by_cases hfinds : e.Finds s
  · obtain ⟨spare', h', -, hle, -⟩ := recounts_step h e
    obtain ⟨more, hcareful, hmore⟩ := next hfinds spare' (by have := hle hfinds; omega) h'
    exact ⟨e :: more, ⟨he, hcareful⟩, fun hno => hmore hno.2⟩
  · exact ⟨[e], ⟨he, trivial⟩, fun hno => hfinds hno.1⟩

theorem starves_of_move (h : SemaphoreCounts s spare) (hspare : 0 < spare)
    {c c' : MqCall α} (hc : s.calls[i]? = some c)
    (hmove : mqMove s.shared c .granted = (shared, c'))
    (next : (c = .popRemove → s.shared.queue ≠ []) → ∀ spare', 0 < spare' →
      SemaphoreCounts ⟨shared, s.calls.set i c'⟩ spare' → (s.calls.set i c')[i]? = some c' →
      Starves ⟨shared, s.calls.set i c'⟩) : Starves s := by
  have hstep : (mqStep s (.move i .granted)).1 = ⟨shared, s.calls.set i c'⟩ := by
    rw [mqStep, step_move _ hc, hmove]
  refine starves_of_step h hspare (e := .move i .granted) ?_ ?_
  · rintro ⟨j, usec, x, ⟨⟩, -, -, hx⟩
    exact hx.elim nofun nofun
  · rw [hstep]
    intro hfinds spare' hspare' h'
    refine next (fun hremove => hfinds i _ rfl (hremove ▸ hc)) spare' hspare' h' ?_
    rw [List.getElem?_set_self (List.getElem?_eq_some_iff.mp hc).1]

/-- As long as nobody is at the list, a pop that was let through can take the next message,
and one more is let through than there are messages. -/
theorem starves_of_unlocked (h : SemaphoreCounts s spare) (hspare : 0 < spare)
    (hlocked : s.shared.locked = false) : Starves s := by
  induction hn : s.shared.queue.length using Nat.strongRecOn generalizing s spare with
  | ind n ih =>
    -- a pop in front of the mutex takes a message and leaves, or finds none
    have hlock {s : MqCrew α} {spare i : Nat} (h : SemaphoreCounts s spare)
        (hspare : 0 < spare) (hlocked : s.shared.locked = false)
        (hqueue : s.shared.queue.length = n) (hc : s.calls[i]? = some .popLock) : Starves s := by
      refine starves_of_move h hspare hc (by rw [mqMove, hlocked, if_neg Bool.false_ne_true]) ?_
      intro _ spare₁ hspare₁ h₁ hc₁
      refine starves_of_move h₁ hspare₁ hc₁ rfl ?_
      intro hne spare₂ hspare₂ h₂ hc₂
      refine starves_of_move h₂ hspare₂ hc₂ rfl ?_
      intro _ spare₃ hspare₃ h₃ _
      refine ih _ ?_ h₃ hspare₃ rfl rfl
      have hqueue' : s.shared.queue ≠ [] := hne rfl
      obtain ⟨data, rest, hcons⟩ := exists_cons_of_ne_nil hqueue'
      simp only [hcons, tqPop] at hqueue ⊢
      exact hqueue ▸ Nat.lt_succ_self _
    have hinside : s.count MqCall.inside = 0 := by rw [h.mutex, hlocked]; rfl
    have hposted := count_le (s := s) MqCall.posted_inside
    have hbalance := h.balance
    by_cases hgranted : s.count MqCall.granted = 0
    · -- the semaphore lets a new pop through
      refine starves_of_step h hspare (e := .pop 0) (by rintro ⟨_, _, _, ⟨⟩, _⟩) ?_
      intro _ spare₁ hspare₁ h₁
      have hc₁ : (mqStep s (.pop 0)).1.calls[s.calls.length]? = some (.popWait 0) := by
        simp [mqStep]
      have hwait : mqMove s.shared (.popWait 0) .granted =
          ({ s.shared with semaphore := s.shared.semaphore - 1 }, .popLock) := by
        rw [mqMove, if_pos rfl, mqWait, if_neg (by omega)]
      refine starves_of_move h₁ hspare₁ hc₁ hwait ?_
      intro _ spare₂ hspare₂ h₂ hc₂
      exact hlock h₂ hspare₂ hlocked hn hc₂
    · obtain ⟨c, hc, hcgranted⟩ := countP_pos_iff.mp (Nat.pos_of_ne_zero hgranted)
      obtain ⟨i, hi⟩ := getElem?_of_mem hc
      have hout := count_eq_zero_iff.mp hinside c hc
      cases c with
      | popLock => exact hlock h hspare hlocked hn hi
      | popRemove => cases hout
      | _ => cases hcgranted

theorem starves_of_spare (h : SemaphoreCounts s spare) (hspare : 0 < spare) : Starves s := by
  have hunlock {s : MqCrew α} {spare i : Nat} {c c' : MqCall α}
      (h : SemaphoreCounts s spare) (hspare : 0 < spare) (hc : s.calls[i]? = some c)
      (hmove : mqMove s.shared c .granted = ({ s.shared with locked := false }, c')) :
      Starves s :=
    starves_of_move h hspare hc hmove fun _ _ hspare' h' _ => starves_of_unlocked h' hspare' rfl
  have hinsert {s : MqCrew α} {spare i : Nat} {data : α}
      (h : SemaphoreCounts s spare) (hspare : 0 < spare)
      (hc : s.calls[i]? = some (.pushInsert data)) : Starves s :=
    starves_of_move h hspare hc rfl fun _ _ hspare' h' hc' => hunlock h' hspare' hc' rfl
  cases hlocked : s.shared.locked with
  | false => exact starves_of_unlocked h hspare hlocked
  | true =>
    -- the thread at the list gets away from it first
    have hinside : 0 < s.count MqCall.inside := by rw [h.mutex, hlocked]; exact Nat.one_pos
    obtain ⟨c, hc, hcinside⟩ := countP_pos_iff.mp hinside
    obtain ⟨i, hi⟩ := getElem?_of_mem hc
    cases c with
    | pushPost data =>
      exact starves_of_move h hspare hi rfl fun _ _ hspare' h' hc' => hinsert h' hspare' hc'
    | pushInsert data => exact hinsert h hspare hi
    | pushUnlock data => exact hunlock h hspare hi rfl
    | popRemove =>
      exact starves_of_move h hspare hi rfl fun _ _ hspare' h' hc' => hunlock h' hspare' hc' rfl
    | popUnlock result => exact hunlock h hspare hi rfl
    | _ => cases hcinside

/-- After a careless step there is a spare pop until one finds the list empty. -/
theorem semaphoreCounts_final (h : SemaphoreCounts s spare) (es : List (MqEvent α))
    (hfinds : EveryStep mqStep (fun s e => e.Finds s) s es)
    (hes : 0 < spare ∨ ¬ EveryStep mqStep (fun s e => ¬ MqEvent.Careless s e) s es) :
    ∃ spare', 0 < spare' ∧ SemaphoreCounts (final mqStep s es) spare' := by
  induction es generalizing s spare with
  | nil => exact ⟨spare, hes.resolve_right fun hno => hno trivial, h⟩
  | cons e es ih =>
    obtain ⟨spare', h', -, hle, hcareless⟩ := recounts_step h e
    refine ih h' hfinds.2 ?_
    rcases hes with hspare | hes
    · have := hle hfinds.1
      omega
    · by_cases he : e.Careless s
      · exact .inl (hcareless he)
      · exact .inr fun hno => hes ⟨he, hno⟩

end

variable {es : List (MqEvent α)}

theorem semaphoreCounts_mqStart : SemaphoreCounts (@mqStart α) 0 :=
  ⟨rfl, rfl⟩

/-- Every pop that gets to the list finds a message there, and returns one that was pushed. -/
structure PopsRight (es : List (MqEvent α)) : Prop where
  finds : EveryStep mqStep (fun s e => e.Finds s) mqStart es
  returns : ∀ (i : Nat) result, (mqRun es).calls[i]? = some (.popUnlock result) →
    ∃ data ∈ (mqRun es).shared.inserted, result = some data

theorem mqRun_returns (hes : EveryStep mqStep (fun s e => e.Finds s) mqStart es) :
    MqCall.popUnlock none ∉ (mqRun es).calls := by
  refine mqRun_invariant (fun s => MqCall.popUnlock none ∉ s.calls) _ ?_ ?_ ?_ not_mem_nil
    es hes
  · intro s data h
    simpa using h
  · intro s usec h
    simpa using h
  · intro s i c x hc h hfinds hno
    rcases mem_or_eq_of_mem_set hno with hno | hno
    · exact h hno
    · by_cases hx : c.Careless x
      · rw [mqMove_careless _ hx] at hno
        cases hno
      · have hmove := mqMoves_mqMove s.shared hx
        rw [← hno] at hmove
        generalize (mqMove s.shared c x).1 = shared at hmove
        generalize hcall : MqCall.popUnlock none = c' at hmove
        cases hmove with
        | stay => exact h (mem_of_getElem? (hcall ▸ hc))
        | wait _ hquiet =>
          rw [← hcall] at hquiet
          cases hquiet.inside
        | remove =>
          obtain ⟨data, rest, hcons⟩ := exists_cons_of_ne_nil (hfinds i x rfl hc)
          rw [hcons] at hcall
          cases hcall
        | _ => cases hcall

theorem popsRight_of_careful
    (hes : EveryStep mqStep (fun s e => ¬ MqEvent.Careless s e) mqStart es) : PopsRight es := by
  have hfinds : EveryStep mqStep (fun s e => e.Finds s) mqStart es := by
    refine everyStep_of_invariant (fun s => SemaphoreCounts s 0)
      (fun s e => ¬ MqEvent.Careless s e) _ ?_ semaphoreCounts_mqStart es hes
    intro s e h he
    obtain ⟨spare', h', hle, -⟩ := recounts_step h e
    rw [Nat.le_zero.mp (hle he)] at h'
    exact ⟨h', fun i x _ hc => (h.finds hc).resolve_right (Nat.lt_irrefl 0)⟩
  refine ⟨hfinds, fun i result hc => ?_⟩
  cases result with
  | none => exact absurd (mem_of_getElem? hc) (mqRun_returns hfinds)
  | some data =>
    obtain ⟨h, hprefix⟩ := mqRun_firstInFirstOut es
    have hpopped : data ∈ (mqRun es).collect MqCall.popped? :=
      mem_filterMap.mpr ⟨_, mem_of_getElem? hc, rfl⟩
    exact ⟨data, hprefix.subset (h.pops.mem_iff.mp hpopped), rfl⟩

/-- A wait without a timeout that a signal interrupts goes for the list like any other. When
nobody is careless from then on, some pop still comes to the list and finds it empty. -/
theorem mqRun_popsRight_iff (es : List (MqEvent α)) :
    (∀ more, EveryStep mqStep (fun s e => ¬ MqEvent.Careless s e) (mqRun es) more →
        PopsRight (es ++ more)) ↔
      EveryStep mqStep (fun s e => ¬ MqEvent.Careless s e) mqStart es := by
  constructor
  · intro hright
    by_contra hcareless
    have hfinds := (hright [] trivial).finds
    rw [append_nil] at hfinds
    obtain ⟨spare, hspare, h⟩ :=
      semaphoreCounts_final semaphoreCounts_mqStart es hfinds (.inr hcareless)
    obtain ⟨more, hcareful, hmore⟩ := starves_of_spare h hspare
    exact hmore ((everyStep_append _ _ _ _).mp (hright more hcareful).finds).2
  · intro hes more hmore
    exact popsRight_of_careful ((everyStep_append _ _ _ _).mpr ⟨hes, hmore⟩)

/-- A pop waits without a timeout on an empty queue, a signal comes, and it returns `NULL`. -/
theorem interrupted_pop_finds_nothing :
    ¬ PopsRight (α := Nat) [.pop (-1), .move 0 .interrupted, .move 0 .granted,
      .move 0 .granted] := by
  intro h
  obtain ⟨data, -, hno⟩ := h.returns 0 none rfl
  cases hno

end Dnt
