import Dnt.Core.IfaceRelease

/-!
# Deleting an Interface Once

A thread that has lowered its counter to zero reads the other counter, and if that
is zero too, it deletes the interface. Somebody always does, since of the two last
decrements one is second, but it may be two.

## Main definitions

* `ReleaseCounts`: The counters count the threads that have yet to lower them.
* `Apart`: No thread makes a counter zero while the one that made the other one zero has yet
  to read.

## Theorems

* `releaseRun_once_iff`: The interface is deleted once just if all steps are apart.
-/

namespace Dnt

open Mealy Crew

open List

/-! ## Places -/

def isUnref : ReleaseCall → Bool
  | .unref => true
  | _ => false

def isUnrefRead : ReleaseCall → Bool
  | .unrefRead => true
  | _ => false

def isDelSender : ReleaseCall → Bool
  | .delSender => true
  | _ => false

def isDelSenderRead : ReleaseCall → Bool
  | .delSenderRead => true
  | _ => false

attribute [simp] isUnref isUnrefRead isDelSender isDelSenderRead

/-- The counters count the threads that have yet to lower them, and no two threads
see the same counter become zero. -/
structure ReleaseCounts (s : Crew IfaceCounts ReleaseCall) : Prop where
  references : s.shared.referenceCount = s.count isUnref
  senders : s.shared.senderCount = s.count isDelSender
  oneUnref : s.count isUnref + s.count isUnrefRead ≤ 1
  oneRead : s.count isDelSenderRead ≤ 1
  lastSender : s.count isDelSenderRead = 1 → s.count isDelSender = 0

/-- Nobody has found a counter at zero that was not, when its own became zero. -/
structure Calm (s : Crew IfaceCounts ReleaseCall) : Prop extends ReleaseCounts s where
  apart : s.count isUnrefRead = 0 ∨ s.count isDelSenderRead = 0
  deletions : s.shared.deletions =
    if s.count isUnref + s.count isUnrefRead = 0 ∧
        s.count isDelSender + s.count isDelSenderRead = 0 then [(0, 0)] else []

/-- Both counters are zero, and both who made them zero delete the interface or have
yet to. -/
structure Overlapped (s : Crew IfaceCounts ReleaseCall) : Prop extends ReleaseCounts s where
  noReference : s.count isUnref = 0
  noSender : s.count isDelSender = 0
  deletions : s.shared.deletions.length + s.count isUnrefRead + s.count isDelSenderRead = 2

/-- No counter becomes zero between the two steps of the thread that made the other
one zero. -/
def Apart (s : Crew IfaceCounts ReleaseCall) : Event Unit ReleaseCall → Prop
  | .start _ => True
  | .move i _ =>
    (s.calls[i]? = some .unref → s.count isDelSenderRead = 0) ∧
      (s.calls[i]? = some .delSender → s.shared.senderCount = 1 → s.count isUnrefRead = 0)

instance Apart.decidable (s : Crew IfaceCounts ReleaseCall) :
    ∀ e : Event Unit ReleaseCall, Decidable (Apart s e)
  | .start _ => inferInstanceAs (Decidable True)
  | .move _ _ => inferInstanceAs (Decidable (_ ∧ _))

/-! ## One step -/

section

variable {s : Crew IfaceCounts ReleaseCall} {i : Nat}

theorem count_release (shared : IfaceCounts) {c : ReleaseCall} (c' : ReleaseCall)
    (h : s.calls[i]? = some c) :
    let t : Crew IfaceCounts ReleaseCall := ⟨shared, s.calls.set i c'⟩
    t.count isUnref + (isUnref c).toNat = s.count isUnref + (isUnref c').toNat ∧
      t.count isUnrefRead + (isUnrefRead c).toNat =
        s.count isUnrefRead + (isUnrefRead c').toNat ∧
      t.count isDelSender + (isDelSender c).toNat =
        s.count isDelSender + (isDelSender c').toNat ∧
      t.count isDelSenderRead + (isDelSenderRead c).toNat =
        s.count isDelSenderRead + (isDelSenderRead c').toNat :=
  ⟨count_move shared c' _ h, count_move shared c' _ h, count_move shared c' _ h,
    count_move shared c' _ h⟩

theorem ReleaseCounts.unref (hs : ReleaseCounts s) (h : s.calls[i]? = some .unref) :
    s.shared.referenceCount = 1 ∧ s.count isUnref = 1 ∧ s.count isUnrefRead = 0 := by
  have hpos : 0 < s.count isUnref := count_pos h rfl
  have hone := hs.oneUnref
  have href := hs.references
  omega

/-- Where a thread goes on, what it does to the counters, and when it deletes the
interface. -/
theorem releaseMove_spec (hs : ReleaseCounts s) {c : ReleaseCall} (x : Unit)
    (h : s.calls[i]? = some c) :
    let m := releaseMove s.shared c x
    (isUnref m.2 = false ∧ isUnrefRead m.2 = isUnref c ∧ isDelSender m.2 = false ∧
      isDelSenderRead m.2 = (isDelSender c && decide (s.count isDelSender = 1))) ∧
    (m.1.referenceCount = s.shared.referenceCount - (isUnref c).toNat ∧
      m.1.senderCount = s.shared.senderCount - (isDelSender c).toNat) ∧
    m.1.deletions = s.shared.deletions ++
      if (isUnrefRead c = true ∧ s.count isDelSender = 0) ∨
        (isDelSenderRead c = true ∧ s.count isUnref = 0)
      then [(s.shared.referenceCount, s.shared.senderCount)] else [] := by
  have href := hs.references
  have hsend := hs.senders
  cases c with
  | unref =>
    have hone := (hs.unref h).1
    simp [releaseMove, hone]
  | unrefRead =>
    by_cases hzero : s.count isDelSender = 0
    · have hnone : ¬ s.shared.senderCount > 0 := by omega
      simp [releaseMove, hnone, hzero, IfaceCounts.deleteInterface]
    · have hsome : s.shared.senderCount > 0 := by omega
      simp [releaseMove, hsome, hzero]
  | delSender =>
    by_cases hone : s.count isDelSender = 1
    · simp [releaseMove, hsend, hone]
    · have hmore : ¬ s.shared.senderCount - 1 = 0 := by omega
      simp [releaseMove, hmore, hone]
  | delSenderRead =>
    by_cases hzero : s.count isUnref = 0
    · have hnone : ¬ s.shared.referenceCount > 0 := by omega
      simp [releaseMove, hnone, hzero, IfaceCounts.deleteInterface]
    · have hsome : s.shared.referenceCount > 0 := by omega
      simp [releaseMove, hsome, hzero]
  | done => simp [releaseMove]

/-- What a step can do, in terms of the counts: a thread goes on to the place behind
it, the counter it lowers goes down, and the interface is deleted by a thread that
reads zero. -/
theorem release_cases (hs : ReleaseCounts s) {c : ReleaseCall} (x : Unit)
    (h : s.calls[i]? = some c) :
    let t : Crew IfaceCounts ReleaseCall :=
      ⟨(releaseMove s.shared c x).1, s.calls.set i (releaseMove s.shared c x).2⟩
    t.count isUnref + (isUnref c).toNat = s.count isUnref ∧
      t.count isUnrefRead + (isUnrefRead c).toNat = s.count isUnrefRead + (isUnref c).toNat ∧
      t.count isDelSender + (isDelSender c).toNat = s.count isDelSender ∧
      t.count isDelSenderRead + (isDelSenderRead c).toNat = s.count isDelSenderRead +
        (if isDelSender c = true ∧ s.count isDelSender = 1 then 1 else 0) ∧
      t.shared.referenceCount = t.count isUnref ∧ t.shared.senderCount = t.count isDelSender ∧
      t.shared.deletions = s.shared.deletions ++
        if (isUnrefRead c = true ∧ s.count isDelSender = 0) ∨
          (isDelSenderRead c = true ∧ s.count isUnref = 0)
        then [(s.shared.referenceCount, s.shared.senderCount)] else [] := by
  intro t
  have hcounts := count_release (releaseMove s.shared c x).1 (releaseMove s.shared c x).2 h
  obtain ⟨h0, h1, h2, h3⟩ : t.count isUnref + _ = _ ∧ t.count isUnrefRead + _ = _ ∧
    t.count isDelSender + _ = _ ∧ t.count isDelSenderRead + _ = _ := hcounts
  obtain ⟨⟨hunref, hunrefRead, hdelSender, hdelSenderRead⟩, ⟨hreferences, hsenders⟩, hdeletions⟩ :=
    releaseMove_spec hs x h
  rw [hunref, Bool.toNat_false, Nat.add_zero] at h0
  rw [hunrefRead] at h1
  rw [hdelSender, Bool.toNat_false, Nat.add_zero] at h2
  have hlast : (isDelSender c && decide (s.count isDelSender = 1)).toNat =
      if isDelSender c = true ∧ s.count isDelSender = 1 then 1 else 0 := by
    cases isDelSender c <;> by_cases hone : s.count isDelSender = 1 <;> simp [hone]
  rw [hdelSenderRead, hlast] at h3
  refine ⟨h0, h1, h2, h3, ?_, ?_, hdeletions⟩
  · have href := hs.references
    change (releaseMove s.shared c x).1.referenceCount = _
    omega
  · have hsend := hs.senders
    change (releaseMove s.shared c x).1.senderCount = _
    omega

theorem releaseCounts_move (hs : ReleaseCounts s) {c : ReleaseCall} (x : Unit)
    (h : s.calls[i]? = some c) :
    ReleaseCounts ⟨(releaseMove s.shared c x).1, s.calls.set i (releaseMove s.shared c x).2⟩ := by
  obtain ⟨h0, h1, h2, h3, href, hsend, -⟩ := release_cases hs x h
  obtain ⟨-, -, hone, hread, hlast⟩ := hs
  refine ⟨href, hsend, by omega, ?_, ?_⟩
  · grind
  · intro hnow
    by_cases hc : isDelSender c = true ∧ s.count isDelSender = 1
    · rw [hc.1, Bool.toNat_true] at h2
      omega
    · rw [if_neg hc] at h3
      omega

/-- Two releasers that have met stay what they are: neither finds the other counter
above zero. -/
theorem overlapped_move (hs : Overlapped s) {c : ReleaseCall} (x : Unit)
    (h : s.calls[i]? = some c) :
    Overlapped ⟨(releaseMove s.shared c x).1, s.calls.set i (releaseMove s.shared c x).2⟩ := by
  obtain ⟨h0, h1, h2, h3, -, -, hdel⟩ := release_cases hs.toReleaseCounts x h
  have hcounts := releaseCounts_move hs.toReleaseCounts x h
  obtain ⟨-, hunref, hsender, hdeletions⟩ := hs
  have hlength : (if isUnrefRead c = true ∨ isDelSenderRead c = true then
      [(s.shared.referenceCount, s.shared.senderCount)] else []).length =
        (isUnrefRead c).toNat + (isDelSenderRead c).toNat := by
    cases c <;> rfl
  simp only [hunref, hsender, and_true] at hdel
  rw [if_neg (by omega)] at h3
  refine ⟨hcounts, by omega, by omega, ?_⟩
  rw [hdel, length_append, hlength]
  omega

theorem overlapped_of_calm (hs : Calm s) {x : Unit} (h : ¬ Apart s (.move i x)) :
    Overlapped (step releaseMove s (.move i x)).1 := by
  simp only [Apart, Classical.not_and_iff_not_or_not, Classical.not_imp] at h
  have hdeletions := hs.deletions
  have hsenders := hs.senders
  obtain ⟨-, -, hone, hread, hlast⟩ := hs.toReleaseCounts
  rcases h with ⟨hc, hreads⟩ | ⟨hc, hlastone, hreads⟩
  · rw [step_move x hc]
    obtain ⟨h0, h1, h2, h3, -, -, hdel⟩ := release_cases hs.toReleaseCounts x hc
    simp at h0 h1 h2 h3 hdel
    rw [if_neg (by omega)] at hdeletions
    refine ⟨releaseCounts_move hs.toReleaseCounts x hc, by omega, by omega, ?_⟩
    rw [hdel, hdeletions, length_nil]
    omega
  · rw [step_move x hc]
    obtain ⟨h0, h1, h2, h3, -, -, hdel⟩ := release_cases hs.toReleaseCounts x hc
    simp at h0 h1 h2 h3 hdel
    rw [if_neg (by omega)] at hdeletions
    rw [if_pos (by omega)] at h3
    refine ⟨releaseCounts_move hs.toReleaseCounts x hc, by omega, by omega, ?_⟩
    rw [hdel, hdeletions, length_nil]
    omega

/-- As long as nobody meets, the interface is deleted by the last of the two, when it
reads. -/
theorem calm_move (hs : Calm s) {c : ReleaseCall} {x : Unit} (hc : s.calls[i]? = some c)
    (h : Apart s (.move i x)) :
    Calm ⟨(releaseMove s.shared c x).1, s.calls.set i (releaseMove s.shared c x).2⟩ := by
  obtain ⟨h0, h1, h2, h3, -, -, hdel⟩ := release_cases hs.toReleaseCounts x hc
  have hcounts := releaseCounts_move hs.toReleaseCounts x hc
  have hdeletions := hs.deletions
  have hapart := hs.apart
  obtain ⟨href, hsend, hone, hread, hlast⟩ := hs.toReleaseCounts
  obtain ⟨hmeets, hmeets'⟩ := h
  rw [hc] at hmeets hmeets'
  cases c with
  | unref =>
    simp at h0 h1 h2 h3 hdel
    -- no sender that lowered its counter to zero has still to read this one
    have hreads := hmeets rfl
    rw [if_neg (by omega)] at hdeletions
    refine ⟨hcounts, Or.inr (by omega), ?_⟩
    rw [hdel, hdeletions, if_neg (by omega)]
  | unrefRead =>
    simp at h0 h1 h2 h3 hdel
    rw [if_neg (by omega)] at hdeletions
    refine ⟨hcounts, Or.inl (by omega), ?_⟩
    grind
  | delSender =>
    simp at h0 h1 h2 h3 hdel
    rw [if_neg (by omega)] at hdeletions
    by_cases hlastone : s.count isDelSender = 1
    · have hreads := hmeets' rfl (by omega)
      rw [if_pos hlastone] at h3
      refine ⟨hcounts, Or.inl (by omega), ?_⟩
      rw [hdel, hdeletions, if_neg (by omega)]
    · rw [if_neg hlastone] at h3
      refine ⟨hcounts, Or.inr (by omega), ?_⟩
      rw [hdel, hdeletions, if_neg (by omega)]
  | delSenderRead =>
    simp at h0 h1 h2 h3 hdel
    rw [if_neg (by omega)] at hdeletions
    refine ⟨hcounts, Or.inr (by omega), ?_⟩
    grind
  | done =>
    simp at h0 h1 h2 h3 hdel
    refine ⟨hcounts, by omega, ?_⟩
    rw [hdel, hdeletions, h0, h1, h2, h3]

end

/-! ## Runs -/

theorem releaseStart_calm (senders : Nat) : Calm (releaseStart senders) := by
  have hunref : (releaseStart senders).count isUnref = 1 := by
    simp [releaseStart, Crew.count, countP_cons, countP_replicate, isUnref]
  have hsender : (releaseStart senders).count isDelSender = senders := by
    simp [releaseStart, Crew.count, countP_replicate, isDelSender]
  have hreads : (releaseStart senders).count isUnrefRead = 0 ∧
      (releaseStart senders).count isDelSenderRead = 0 := by
    simp [releaseStart, Crew.count, countP_replicate, isUnrefRead, isDelSenderRead]
  refine ⟨⟨?_, ?_, ?_, ?_, ?_⟩, Or.inl hreads.1, ?_⟩
  · rw [hunref]
    rfl
  · rw [hsender]
    rfl
  · omega
  · omega
  · omega
  · rw [if_neg (by omega)]
    rfl

def Returned (s : Crew IfaceCounts ReleaseCall) : Prop :=
  ∀ c ∈ s.calls, c = .done

theorem count_of_returned {s : Crew IfaceCounts ReleaseCall} (h : Returned s)
    (p : ReleaseCall → Bool) (hp : p .done = false) : s.count p = 0 :=
  count_eq_zero_iff.mpr fun c hc => by rw [h c hc, hp]

/-- A run from a calm state deletes the interface once exactly if its steps stay
apart. -/
theorem calm_run_iff (s : Crew IfaceCounts ReleaseCall) (hs : Calm s) {schedule : List Nat}
    (hend : Returned (final (step releaseMove) s (releaseSchedule schedule))) :
    (final (step releaseMove) s (releaseSchedule schedule)).shared.deletions = [(0, 0)] ↔
      EveryStep (step releaseMove) Apart s (releaseSchedule schedule) := by
  induction schedule generalizing s with
  | nil =>
    have hzero := count_of_returned (s := s) hend
    refine iff_of_true ?_ trivial
    change s.shared.deletions = _
    rw [hs.deletions, if_pos]
    exact ⟨by rw [hzero _ rfl, hzero _ rfl], by rw [hzero _ rfl, hzero _ rfl]⟩
  | cons i rest ih =>
    by_cases hapart : Apart s (.move i ())
    · have hnext : Calm (step releaseMove s (.move i ())).1 := by
        cases hc : s.calls[i]? with
        | none => rwa [step_move_none () hc]
        | some c =>
          rw [step_move () hc]
          exact calm_move hs hc hapart
      exact (ih _ hnext hend).trans ⟨fun h => ⟨hapart, h⟩, fun h => h.2⟩
    · -- from here on there are two who delete
      have hover : Overlapped (final (step releaseMove)
          (step releaseMove s (.move i ())).1 (releaseSchedule rest)) := by
        exact final_invariant_moves
          (fun s i c x hc hI => overlapped_move hI x hc) (overlapped_of_calm hs hapart) rest ()
      have hzero := count_of_returned hend
      have htwo := hover.deletions
      refine iff_of_false (fun hone => ?_) fun h => hapart h.1
      have hlength := congrArg List.length hone
      have h1 := hzero isUnrefRead rfl
      have h2 := hzero isDelSenderRead rfl
      simp only [length_singleton] at hlength
      simp only [releaseSchedule, map_cons, final_cons] at h1 h2 hlength htwo
      omega

/-- When all threads have returned, the interface has been deleted once, with both
counters at zero, exactly if no counter became zero between the two steps of the
thread that made the other one zero. -/
theorem releaseRun_once_iff (senders : Nat) (schedule : List Nat)
    (hend : Returned (releaseRun senders schedule)) :
    (releaseRun senders schedule).shared.deletions = [(0, 0)] ↔
      EveryStep (Crew.step releaseMove) Apart (releaseStart senders)
        (releaseSchedule schedule) :=
  calm_run_iff _ (releaseStart_calm senders) hend

/-- Two senders, and the reference between them. -/
theorem releaseRun_once_iff_two :
    (releaseRun 2 [1, 0, 0, 2, 2]).shared.deletions = [(0, 0)] := by
  have hend : Returned (releaseRun 2 [1, 0, 0, 2, 2]) := by
    unfold Returned
    decide
  refine (releaseRun_once_iff 2 [1, 0, 0, 2, 2] hend).mpr ?_
  simp only [releaseSchedule, map_cons, map_nil, everyStep_cons,
    everyStep_nil, and_true, Apart]
  decide

/-- The last sender goes after the last reference, and before its thread reads. -/
theorem releaseRun_twice :
    Returned (releaseRun 1 [0, 1, 0, 1]) ∧
      (releaseRun 1 [0, 1, 0, 1]).shared.deletions = [(0, 0), (0, 0)] := by
  unfold Returned
  decide

end Dnt
