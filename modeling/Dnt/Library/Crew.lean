import Dnt.Library.Mealy

/-!
# Threads with a Shared State

Any number of threads, each somewhere in a call of some function, and what they share.
A run is a list of steps of threads and of new calls, in any order, so the runs are the
interleavings. Invariants of such a system mostly count threads.

## Main definitions

* `Crew`, `Crew.step`: The threads and what they share, and one step of one of them.
* `Crew.count`, `Crew.collect`: How many threads are at some places, and what they have.

## Theorems

* `Crew.count_move`, `Crew.collect_move`: What a step does to these.
* `Crew.final_invariant`, `Crew.final_invariant_moves`: What every step keeps holds after
  every run.
-/

structure Crew (σ κ : Type*) where
  shared : σ
  calls : List κ

namespace Crew

open List

variable {σ κ ι α : Type*}

/-- A new thread begins a call, or the thread with number `i` takes a step, and what
happens to it there is `x`. -/
inductive Event (ι κ : Type*) where
  | start (c : κ)
  | move (i : Nat) (x : ι)

/-- One step of the system, given what a step does to the shared state and to the
place of the thread. -/
def step (move : σ → κ → ι → σ × κ) (s : Crew σ κ) : Event ι κ → Crew σ κ × Unit
  | .start c => ({ s with calls := s.calls ++ [c] }, ())
  | .move i x =>
    match s.calls[i]? with
    | none => (s, ())
    | some c => (⟨(move s.shared c x).1, s.calls.set i (move s.shared c x).2⟩, ())

/-- How many threads are at one of the places `p`. -/
def count (s : Crew σ κ) (p : κ → Bool) : Nat :=
  s.calls.countP p

/-- What the threads have, where `f` says what one has. -/
def collect (s : Crew σ κ) (f : κ → Option α) : List α :=
  s.calls.filterMap f

variable {move : σ → κ → ι → σ × κ} {s : Crew σ κ}

@[simp] theorem step_start (c : κ) :
    (step move s (.start c)).1 = ⟨s.shared, s.calls ++ [c]⟩ := rfl

variable {i : Nat} {c : κ} {p : κ → Bool}

theorem step_move (x : ι) (h : s.calls[i]? = some c) : (step move s (.move i x)).1 =
      ⟨(move s.shared c x).1, s.calls.set i (move s.shared c x).2⟩ := by
  simp only [step, h]

theorem step_move_none (x : ι) (h : s.calls[i]? = none) : (step move s (.move i x)).1 = s := by
  simp only [step, h]

theorem count_start (shared : σ) (c : κ) (p : κ → Bool) :
    count ⟨shared, s.calls ++ [c]⟩ p = count s p + (p c).toNat := by
  simp only [count, countP_append, countP_singleton]
  cases p c with
  | false | true => rfl

theorem count_move (shared : σ) (c' : κ) (p : κ → Bool) (h : s.calls[i]? = some c) :
    count ⟨shared, s.calls.set i c'⟩ p + (p c).toNat = count s p + (p c').toNat := by
  obtain ⟨hi, rfl⟩ := List.getElem?_eq_some_iff.mp h
  have hpos : p s.calls[i] = true → 0 < s.calls.countP p := fun hp =>
    countP_pos_iff.mpr ⟨_, getElem_mem hi, hp⟩
  simp only [count, countP_set hi]
  cases hold : p s.calls[i] with
  | false => cases hnew : p c' <;> simp
  | true =>
    have := hpos hold
    cases hnew : p c' <;> simp <;> omega

theorem count_pos (h : s.calls[i]? = some c) (hp : p c = true) : 0 < count s p :=
  countP_pos_iff.mpr ⟨c, mem_of_getElem? h, hp⟩

theorem count_eq_zero_iff : count s p = 0 ↔ ∀ c ∈ s.calls, p c = false := by
  simp [count]

theorem count_le {q : κ → Bool} (h : ∀ c, p c = true → q c = true) : count s p ≤ count s q :=
  countP_mono_left fun c _ => h c

theorem collect_start (shared : σ) (c : κ) (f : κ → Option α) :
    collect ⟨shared, s.calls ++ [c]⟩ f = collect s f ++ (f c).toList := by
  simp only [collect, filterMap_append]
  cases hc : f c with
  | none | some a => simp [hc]

theorem collect_move (shared : σ) (c' : κ) (f : κ → Option α) (h : s.calls[i]? = some c) :
    ((f c).toList ++ collect ⟨shared, s.calls.set i c'⟩ f).Perm ((f c').toList ++ collect s f) := by
  obtain ⟨hi, rfl⟩ := List.getElem?_eq_some_iff.mp h
  have hsplit (d : κ) : (List.take i s.calls ++ d :: List.drop (i + 1) s.calls).filterMap f =
      (List.take i s.calls).filterMap f ++
        ((f d).toList ++ (List.drop (i + 1) s.calls).filterMap f) := by grind
  have hself : s.calls = List.take i s.calls ++ s.calls[i] :: List.drop (i + 1) s.calls := by
    rw [getElem_cons_drop, take_append_drop]
  simp only [collect]
  rw [set_eq_take_append_cons_drop, if_pos hi, hsplit]
  conv_rhs => rw [hself, hsplit]
  -- both are the two parts around the thread, and what it had and has
  refine ((perm_append_comm_assoc _ _ _).append_left _).trans ?_
  refine (perm_append_comm_assoc _ _ _).trans (List.Perm.append_left _ ?_)
  exact perm_append_comm_assoc _ _ _

/-- The induction over runs: what calls that begin keep, and every step of a thread,
holds after every run. The steps of the run may have to meet a condition. -/
theorem final_invariant (I : Crew σ κ → Prop) (P : Crew σ κ → Event ι κ → Prop)
    (hstart : ∀ s c, I s → P s (.start c) → I ⟨s.shared, s.calls ++ [c]⟩)
    (hmove : ∀ s i c x, s.calls[i]? = some c → I s → P s (.move i x) →
      I ⟨(move s.shared c x).1, s.calls.set i (move s.shared c x).2⟩)
    (hs : I s) (es : List (Event ι κ)) (hP : Mealy.EveryStep (step move) P s es) :
    I (Mealy.final (step move) s es) := by
  refine Mealy.final_invariant_of_everyStep I P (fun s e hI he => ?_) hs es hP
  cases e with
  | start c => exact hstart s c hI he
  | move i x =>
    cases hc : s.calls[i]? with
    | none => rwa [step_move_none x hc]
    | some c =>
      rw [step_move x hc]
      exact hmove s i c x hc hI he

theorem final_invariant_moves {I : Crew σ κ → Prop} (hmove : ∀ s i c x, s.calls[i]? = some c → I s →
      I ⟨(move s.shared c x).1, s.calls.set i (move s.shared c x).2⟩)
    (hs : I s) (schedule : List Nat) (x : ι) :
    I (Mealy.final (step move) s (schedule.map fun i => .move i x)) := by
  refine final_invariant I (fun _ e => ∃ i, e = .move i x) ?_ ?_ hs _ ?_
  · rintro s c - ⟨i, hi⟩
    cases hi
  · exact fun s i c x hc hI _ => hmove s i c x hc hI
  · rw [Mealy.everyStep_iff_forall_mem (fun e : Event ι κ => ∃ i, e = .move i x)]
    exact fun e he => (mem_map.mp he).imp fun i hi => hi.2.symm

end Crew
