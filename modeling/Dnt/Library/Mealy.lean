import Mathlib.Data.List.Forall2

/-!
# Runs of Input Driven Machines

A component that answers a stream of events is a Mealy machine: a step takes a state
and an event to a new state and an output. The rules here let a proof about a whole
run look at one step only.

## Main definitions

* `Mealy.final`, `Mealy.outputs`: The state a run ends in, and what it has answered.
* `Mealy.EveryStep`: A property of every step of a run.
* `Mealy.Undisturbed`: What is seen of a run is the same without some of its events.

## Theorems

* `Mealy.final_invariant_of_everyStep`: What every step keeps holds at the end.
* `Mealy.run_simulation`: Two machines that agree step by step give the same answers.
* `Mealy.undisturbed_iff`: A run is undisturbed just if each of these events is dealt with
  as it should be and leaves what is seen as it is.
-/

namespace Mealy

variable {σ ε ο τ φ π : Type*}

def run (step : σ → ε → σ × ο) : σ → List ε → σ × List ο
  | s, [] => (s, [])
  | s, e :: es =>
    let next := step s e
    let rest := run step next.1 es
    (rest.1, next.2 :: rest.2)

def final (step : σ → ε → σ × ο) (s : σ) (es : List ε) : σ :=
  (run step s es).1

def outputs (step : σ → ε → σ × ο) (s : σ) (es : List ε) : List ο :=
  (run step s es).2

/-- `P` holds of the state and the event read in it at every step of a run. -/
def EveryStep (step : σ → ε → σ × ο) (P : σ → ε → Prop) : σ → List ε → Prop
  | _, [] => True
  | s, e :: es => P s e ∧ EveryStep step P (step s e).1 es

instance EveryStep.decidable (step : σ → ε → σ × ο) (P : σ → ε → Prop)
    [∀ s e, Decidable (P s e)] : ∀ (s : σ) (es : List ε), Decidable (EveryStep step P s es)
  | _, [] => isTrue trivial
  | s, e :: es =>
    have := EveryStep.decidable step P (step s e).1 es
    inferInstanceAs (Decidable (P s e ∧ EveryStep step P (step s e).1 es))

/-- The machine that also keeps its outputs, oldest first. A relation between
a counter and what has been answered so far is a relation on its states. -/
def logged (step : σ → ε → σ × ο) (s : σ × List ο) (e : ε) : (σ × List ο) × ο :=
  (((step s.1 e).1, s.2 ++ [(step s.1 e).2]), (step s.1 e).2)

/-- The outputs and the views of the states after those events of a run that are
kept. -/
def observed (step : σ → ε → σ × ο) (keep : ε → Bool) (view : σ → τ) : σ → List ε → List (ο × τ)
  | _, [] => []
  | s, e :: es =>
    if keep e = true then
      ((step s e).2, view (step s e).1) :: observed step keep view (step s e).1 es
    else observed step keep view (step s e).1 es

/-- Events that are not kept are dealt with as `P` says, and what is seen of the run
is the same without them. -/
structure Undisturbed (step : σ → ε → σ × ο) (keep : ε → Bool) (view : σ → τ)
    (P : σ → ε → Prop) (s : σ) (es : List ε) : Prop where
  passed : EveryStep step (fun s e => keep e = false → P s e) s es
  same : observed step keep view s es = observed step keep view s (es.filter keep)

variable {step : σ → ε → σ × ο} {step' : τ → ε → τ × π} {step'' : τ → φ → τ × π}

variable (s : σ) (I : σ → Prop) (P Q : σ → ε → Prop) (keep : ε → Bool) (view : σ → τ)

@[simp] theorem final_nil : final step s [] = s := rfl

@[simp] theorem final_cons (e : ε) (es : List ε) :
    final step s (e :: es) = final step (step s e).1 es := rfl

@[simp] theorem outputs_nil : outputs step s [] = [] := rfl

@[simp] theorem outputs_cons (e : ε) (es : List ε) :
    outputs step s (e :: es) = (step s e).2 :: outputs step (step s e).1 es := rfl

@[simp] theorem everyStep_nil (s : σ) : EveryStep step P s [] := trivial

@[simp] theorem everyStep_cons (s : σ) (e : ε) (es : List ε) :
    EveryStep step P s (e :: es) ↔ P s e ∧ EveryStep step P (step s e).1 es := Iff.rfl

open List

theorem final_append (es fs : List ε) :
    final step s (es ++ fs) = final step (final step s es) fs := by
  induction es generalizing s with
  | nil => rfl
  | cons e es ih => rw [cons_append, final_cons, final_cons, ih]

theorem outputs_append (es fs : List ε) :
    outputs step s (es ++ fs) = outputs step s es ++ outputs step (final step s es) fs := by
  induction es generalizing s with
  | nil => rfl
  | cons e es ih =>
    rw [cons_append, outputs_cons, outputs_cons, final_cons, ih, cons_append]

theorem everyStep_append (s : σ) (es fs : List ε) :
    EveryStep step P s (es ++ fs) ↔
      EveryStep step P s es ∧ EveryStep step P (final step s es) fs := by
  induction es generalizing s with
  | nil => simp only [nil_append, everyStep_nil, final_nil, true_and]
  | cons e es ih =>
    simp [everyStep_cons, final_cons, ih, and_assoc]

theorem everyStep_and (s : σ) (es : List ε) :
    EveryStep step (fun s e => P s e ∧ Q s e) s es ↔
      EveryStep step P s es ∧ EveryStep step Q s es := by
  induction es generalizing s with
  | nil => exact iff_of_true trivial ⟨trivial, trivial⟩
  | cons e es ih =>
    simp only [everyStep_cons, ih]
    exact and_and_and_comm

/-- The rule for a property with side conditions: one step that meets its condition
keeps the invariant and has the property, so a run whose steps all meet theirs
has it throughout. -/
theorem everyStep_of_invariant (hstep : ∀ s e, I s → P s e → I (step s e).1 ∧ Q s e) {s : σ}
    (hs : I s) (es : List ε)
    (hP : EveryStep step P s es) : EveryStep step Q s es := by
  induction es generalizing s with
  | nil => trivial
  | cons e es ih =>
    obtain ⟨hnext, hQ⟩ := hstep s e hs hP.1
    exact ⟨hQ, ih hnext hP.2⟩

theorem final_invariant_of_everyStep (hstep : ∀ s e, I s → P s e → I (step s e).1) {s : σ}
    (hs : I s) (es : List ε)
    (hP : EveryStep step P s es) : I (final step s es) := by
  induction es generalizing s with
  | nil => exact hs
  | cons e es ih => exact ih (hstep s e hs hP.1) hP.2

theorem everyStep_true (es : List ε) : EveryStep step (fun _ _ => True) s es := by
  induction es generalizing s with
  | nil => trivial
  | cons e es ih => exact ⟨trivial, ih _⟩

theorem final_invariant (hstep : ∀ s e, I s → I (step s e).1) {s : σ} (hs : I s)
    (es : List ε) : I (final step s es) :=
  final_invariant_of_everyStep I (fun _ _ => True) (fun s e hI _ => hstep s e hI) hs es
    (everyStep_true s es)

/-- When the invariant turns one step property into another, and a step that has
it keeps the invariant, the two agree over runs. -/
theorem everyStep_iff_of_invariant (hkeep : ∀ s e, I s → Q s e → I (step s e).1)
    (hiff : ∀ s e, I s → (P s e ↔ Q s e)) {s : σ}
    (hs : I s) (es : List ε) : EveryStep step P s es ↔ EveryStep step Q s es := by
  constructor
  · refine everyStep_of_invariant I P Q (fun s e hI hP => ?_) hs es
    have hQ := (hiff s e hI).1 hP
    exact ⟨hkeep s e hI hQ, hQ⟩
  · refine everyStep_of_invariant I Q P (fun s e hI hQ => ?_) hs es
    exact ⟨hkeep s e hI hQ, (hiff s e hI).2 hQ⟩

/-- The same for runs whose steps all meet a side condition, which the invariant may
need. -/
theorem everyStep_iff_of_possible (C P Q : σ → ε → Prop)
    (hkeep : ∀ s e, I s → C s e → I (step s e).1)
    (hiff : ∀ s e, I s → C s e → (P s e ↔ Q s e)) {s : σ} (hs : I s) (es : List ε)
    (hC : EveryStep step C s es) : EveryStep step P s es ↔ EveryStep step Q s es := by
  constructor
  · intro hP
    refine everyStep_of_invariant I (fun s e => C s e ∧ P s e) Q (fun s e hI h => ?_) hs es
      ((everyStep_and C P s es).mpr ⟨hC, hP⟩)
    exact ⟨hkeep s e hI h.1, (hiff s e hI h.1).1 h.2⟩
  · intro hQ
    refine everyStep_of_invariant I (fun s e => C s e ∧ Q s e) P (fun s e hI h => ?_) hs es
      ((everyStep_and C Q s es).mpr ⟨hC, hQ⟩)
    exact ⟨hkeep s e hI h.1, (hiff s e hI h.1).2 h.2⟩

/-- Two machines, the second reading translated events: a relation kept by every
step that meets its condition, under which the outputs match, relates whole
runs. -/
theorem run_simulation_of_everyStep (f : ε → φ) (R : σ → τ → Prop) (O : ο → π → Prop)
    (P : σ → ε → Prop) (hstep : ∀ s t e, R s t → P s e →
      R (step s e).1 (step'' t (f e)).1 ∧ O (step s e).2 (step'' t (f e)).2)
    {s : σ} {t : τ} (hst : R s t) (es : List ε) (hP : EveryStep step P s es) :
    R (final step s es) (final step'' t (es.map f)) ∧
      List.Forall₂ O (outputs step s es) (outputs step'' t (es.map f)) := by
  induction es generalizing s t with
  | nil => exact ⟨hst, List.Forall₂.nil⟩
  | cons e es ih =>
    obtain ⟨hnext, hout⟩ := hstep s t e hst hP.1
    obtain ⟨hfinal, houts⟩ := ih hnext hP.2
    exact ⟨hfinal, List.Forall₂.cons hout houts⟩

/-- Two machines reading the same events: a relation kept by every step, under
which the outputs match, relates whole runs. -/
theorem run_simulation (R : σ → τ → Prop) (O : ο → π → Prop)
    (hstep : ∀ s t e, R s t → R (step s e).1 (step' t e).1 ∧ O (step s e).2 (step' t e).2)
    {s : σ} {t : τ} (hst : R s t) (es : List ε) : R (final step s es) (final step' t es) ∧
      List.Forall₂ O (outputs step s es) (outputs step' t es) := by
  induction es generalizing s t with
  | nil => exact ⟨hst, List.Forall₂.nil⟩
  | cons e es ih =>
    obtain ⟨hnext, hout⟩ := hstep s t e hst
    obtain ⟨hfinal, houts⟩ := ih hnext
    exact ⟨hfinal, List.Forall₂.cons hout houts⟩

theorem final_logged (log : List ο) (es : List ε) :
    final (logged step) (s, log) es = (final step s es, log ++ outputs step s es) := by
  induction es generalizing s log with
  | nil => simp only [final_nil, outputs_nil, append_nil]
  | cons e es ih =>
    rw [final_cons, final_cons, outputs_cons, logged, ih, append_assoc, singleton_append]

theorem outputs_logged (log : List ο) (es : List ε) :
    outputs (logged step) (s, log) es = outputs step s es := by
  induction es generalizing s log with
  | nil => rfl
  | cons e es ih => rw [outputs_cons, outputs_cons, logged, ih]

/-- The unwinding rule: where events that are kept only depend on the view and only
change it alike, and the others leave it alone, the others can be taken out. -/
theorem observed_filter (hkeep : ∀ s t e, keep e = true → view s = view t →
      (step s e).2 = (step t e).2 ∧ view (step s e).1 = view (step t e).1)
    {s t : σ} (hst : view s = view t) (es : List ε)
    (hother : EveryStep step (fun s e => keep e = false → view (step s e).1 = view s) s es) :
    observed step keep view s es = observed step keep view t (es.filter keep) := by
  induction es generalizing s t with
  | nil => rfl
  | cons e es ih =>
    by_cases he : keep e = true
    · obtain ⟨hout, hview⟩ := hkeep s t e he hst
      rw [filter_cons_of_pos he]
      simp only [observed, if_pos he, hout, hview, ih hview hother.2]
    · rw [filter_cons_of_neg he]
      simp only [observed, if_neg he]
      exact ih ((hother.1 (Bool.of_not_eq_true he)).trans hst) hother.2

theorem map_fst_observed_of_forall (s : σ) (es : List ε)
    (h : ∀ e ∈ es, keep e = true) :
    (observed step keep view s es).map Prod.fst = outputs step s es := by
  induction es generalizing s with
  | nil => rfl
  | cons e es ih =>
    obtain ⟨he, hes⟩ := forall_mem_cons.mp h
    simp [observed, if_pos he, outputs_cons, ih _ hes]

theorem everyStep_iff_forall_mem (P : ε → Prop) (s : σ) (es : List ε) :
    EveryStep step (fun _ e => P e) s es ↔ ∀ e ∈ es, P e := by
  induction es generalizing s with
  | nil => exact iff_of_true trivial fun e he => absurd he not_mem_nil
  | cons e es ih => rw [everyStep_cons, ih, forall_mem_cons]

/-- If it can be told from an event whether it is dealt with as it should, and then
it leaves the view alone, nothing is disturbed exactly if that is so for all of
them. -/
theorem undisturbed_iff {P : σ → ε → Prop} {M : ε → Prop}
    (hkeep : ∀ s t e, keep e = true → view s = view t →
      (step s e).2 = (step t e).2 ∧ view (step s e).1 = view (step t e).1)
    (hview : ∀ s e, keep e = false → P s e → view (step s e).1 = view s)
    (hP : ∀ s e, keep e = false → (P s e ↔ M e)) (s : σ) (es : List ε) :
    Undisturbed step keep view P s es ↔ ∀ e ∈ es, keep e = false → M e := by
  have hpassed : EveryStep step (fun s e => keep e = false → P s e) s es ↔
      ∀ e ∈ es, keep e = false → M e := by
    rw [← everyStep_iff_forall_mem (fun e => keep e = false → M e) s]
    exact everyStep_iff_of_invariant (fun _ => True) _ _ (fun _ _ _ _ => trivial)
      (fun s e _ => forall_congr' fun he => hP s e he) trivial es
  constructor
  · exact fun h => hpassed.mp h.passed
  · intro h
    refine ⟨hpassed.mpr h, observed_filter keep view hkeep rfl es ?_⟩
    exact everyStep_of_invariant (fun _ => True) _ _
      (fun s e _ hp => ⟨trivial, fun he => hview s e he (hp he)⟩) trivial es (hpassed.mpr h)

end Mealy
