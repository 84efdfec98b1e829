import Dnt.Theory.Oam.Sessions

/-!
# Counters of a Session

`list_sessions_of_stream` prints how many messages a session has sent and received.
The numbers are those of the tracker, and an allocation sets all members of its
tracker but these two. So what is listed includes the messages of earlier sessions.

## Main definitions

* `CountBook`: A book with the messages of earlier sessions, and those of the present one.
* `CountsRight`: Just the latter are listed.

## Theorems

* `sessionRun_countsRight_iff`: The counts are right just if the sessions before had none.
-/

namespace Dnt

variable {ρ : Type*}

/-- The messages of a tracker, up to the last allocation and since then. -/
structure SlotCounts where
  earlierSent : Nat
  earlierRecv : Nat
  sent : Nat
  recv : Nat

abbrev CountBook := String → Fin 16 → SlotCounts

/-- A call and its result, as they are written into the book. -/
def CountBook.after (b : CountBook) (e : SessionEvent ρ) (result : Int) : CountBook :=
  fun name i =>
    let c := b name i
    match e with
    | .alloc _ streamName _ _ _ =>
      if name = streamName ∧ result = (i : Nat) then
        ⟨c.earlierSent + c.sent, c.earlierRecv + c.recv, 0, 0⟩
      else c
    | .recv _ streamName session =>
      if name = streamName ∧ session = i then { c with recv := c.recv + 1 } else c
    | .sent _ streamName session =>
      if name = streamName ∧ session = i then { c with sent := c.sent + 1 } else c
    | .stop _ _ | .stopAll _ => c

/-- The trackers count everything, in 64 bits. -/
def SlotCounts.total (c : SlotCounts) : Nat × Nat :=
  ((c.earlierSent + c.sent) % 2 ^ 64, (c.earlierRecv + c.recv) % 2 ^ 64)

theorem counts_stopOfConnection (conn : Option String) (s : SessionTracker ρ) :
    (stopOfConnection conn s).1.counts = s.counts := by
  unfold stopOfConnection
  split_ifs
  · rfl
  · exact counts_stopSessionLocked s
  · rfl

/-- The trackers and the book after a call. -/
theorem counts_sessionStep {ids : SessionIds ρ} {b : CountBook}
    (h : ∀ name i, (trackerOf ids name i).counts = (b name i).total) (e : SessionEvent ρ)
    (name : String) (i : Fin 16) : (trackerOf (sessionStep ids e).1 name i).counts =
      (b.after e (sessionStep ids e).2 name i).total := by
  have hold : ((getStreamSessions ids name).2.sessions i) = trackerOf ids name i := by
    rw [getStreamSessions_snd, trackerOf]
  have hcounts := h name i
  simp only [SessionTracker.counts, SlotCounts.total, Prod.mk.injEq] at hcounts
  cases e with
  | alloc now streamName req connName intervalMs =>
    have htotal : (CountBook.after b (.alloc now streamName req connName intervalMs)
        (sessionStep ids (.alloc now streamName req connName intervalMs)).2 name i).total =
          (b name i).total := by
      simp only [CountBook.after]
      split_ifs <;> simp [SlotCounts.total]
    rw [htotal, ← h]
    -- neither a new session nor the one it replaces changes a count
    obtain ⟨j, -, -, htrackers⟩ | ⟨-, -, htrackers⟩ :=
      allocSessionId_cases ids now streamName req connName intervalMs
    · by_cases hsame : name = streamName ∧ i = j
      · exact ((htrackers name i).1 hsame).2
      · exact congrArg _ ((htrackers name i).2 hsame)
    · exact congrArg _ (htrackers name i)
  | stop streamName session =>
    rw [CountBook.after, ← h]
    simp only [sessionStep, stopSession]
    split_ifs with hsession
    · rw [trackerOf_set]
      split_ifs with hsame
      · obtain ⟨rfl, rfl⟩ := hsame
        rw [counts_stopSessionLocked, hold]
      · rfl
    · rw [trackerOf_getStreamSessions]
  | stopAll conn =>
    rw [sessionStep, trackerOf_stopAll, counts_stopOfConnection, CountBook.after]
    exact h name i
  | recv now streamName session =>
    simp only [sessionStep, sessionRecv, trackerOf_set, CountBook.after]
    split_ifs with hsame
    · obtain ⟨rfl, rfl⟩ := hsame
      simp only [SessionTracker.counts, SlotCounts.total, hold, Prod.mk.injEq]
      omega
    · exact h name i
  | sent now streamName session =>
    simp only [sessionStep, sessionSent, trackerOf_set, CountBook.after]
    split_ifs with hsame
    · obtain ⟨rfl, rfl⟩ := hsame
      simp only [SessionTracker.counts, SlotCounts.total, hold, Prod.mk.injEq]
      omega
    · exact h name i

def countedStep (s : SessionIds ρ × CountBook) (e : SessionEvent ρ) :
    (SessionIds ρ × CountBook) × Int :=
  let next := sessionStep s.1 e
  ((next.1, s.2.after e next.2), next.2)

/-- The state after some calls, from the start of the program. -/
def countedRun (es : List (SessionEvent ρ)) : SessionIds ρ × CountBook :=
  Mealy.final countedStep ([], fun _ _ => ⟨0, 0, 0, 0⟩) es

/-- The counts that are listed for a live session are those since its allocation. -/
def CountsRight (s : SessionIds ρ × CountBook) : Prop :=
  ∀ name i, (trackerOf s.1 name i).req.isSome = true →
    (trackerOf s.1 name i).sent = (s.2 name i).sent ∧
      (trackerOf s.1 name i).recv = (s.2 name i).recv

/-- Earlier sessions with the number of a live one had no messages, as far as can be told from
64 bits, and it has not had too many for them. -/
def CountsFresh (s : SessionIds ρ × CountBook) : Prop :=
  ∀ name i, (trackerOf s.1 name i).req.isSome = true →
    ((s.2 name i).earlierSent % 2 ^ 64 = 0 ∧ (s.2 name i).sent < 2 ^ 64) ∧
      (s.2 name i).earlierRecv % 2 ^ 64 = 0 ∧ (s.2 name i).recv < 2 ^ 64

/-- After any calls, the counts of the live sessions are right if and only if their numbers
were not used for messages before. -/
theorem sessionRun_countsRight_iff (es : List (SessionEvent ρ)) :
    CountsRight (countedRun es) ↔ CountsFresh (countedRun es) := by
  have hcounts : ∀ name i, (trackerOf (countedRun es).1 name i).counts =
      ((countedRun es).2 name i).total := by
    refine @Mealy.final_invariant _ _ _ countedStep
      (fun s : SessionIds ρ × CountBook => ∀ name i, (trackerOf s.1 name i).counts =
        (s.2 name i).total) (fun s e h => ?_) _ (fun name i => rfl) es
    exact counts_sessionStep h e
  refine forall_congr' fun name => forall_congr' fun i => imp_congr_right fun _ => ?_
  have hcount := hcounts name i
  simp only [SessionTracker.counts, SlotCounts.total, Prod.mk.injEq] at hcount
  rw [hcount.1, hcount.2]
  omega

/-- A session that has sent a message is stopped, and its number comes round again after
fifteen others. -/
theorem session_counts_stale :
    ¬ CountsRight (countedRun ([.alloc 0 "s" 1 none 1000, .sent 0 "s" 1, .stop "s" 1] ++
      List.replicate 16 (.alloc 0 "s" 2 none 1000))) := by
  intro h
  exact absurd (h "s" 1) (by decide)

end Dnt
