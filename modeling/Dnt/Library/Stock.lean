import Mathlib.Data.List.Perm.Basic
import Dnt.Library.Mealy

/-!
# Machines That Keep a Stock

A machine that takes items in, keeps some of them, and gives others out. If no step
loses or makes items, then no run does, and if every step numbers the items it takes in
from a counter, then no item is taken in twice.

## Main definitions

* `Stock`: What a machine takes in, keeps and gives out, and how items are numbered.
* `Stock.Balanced`, `Stock.Ordered`: A step neither loses nor makes items, and keeps
  their order.

## Theorems

* `Stock.run_balanced`, `Stock.run_ordered`: So do runs.
* `Stock.not_sublist_swap`: Two items have one order.
-/

/-- What a machine with states `σ` and outputs `ο` takes in, keeps and gives
out, and how the items are numbered. -/
structure Stock (σ ο α : Type*) where
  intake : ο → List α
  outtake : ο → List α
  stock : σ → List α
  next : σ → Nat
  id : α → Nat

namespace Stock

variable {σ ε ο α : Type*} (S : Stock σ ο α)

/-- The items taken in, and those kept before, are the items given out and those
kept after. -/
def Balanced (s : σ) (r : σ × ο) : Prop :=
  (S.intake r.2 ++ S.stock s).Perm (S.outtake r.2 ++ S.stock r.1)

/-- The items taken in have new numbers, all different. -/
structure Numbered (s : σ) (r : σ × ο) : Prop where
  next_le : S.next s ≤ S.next r.1
  intake_id : ∀ a ∈ S.intake r.2, S.next s ≤ S.id a ∧ S.id a < S.next r.1
  distinct : (S.intake r.2).Pairwise fun a b => S.id a ≠ S.id b

/-- What was kept is given out first to last, or kept in the same order. -/
def Ordered (s : σ) (r : σ × ο) : Prop :=
  (S.stock s).Sublist (S.outtake r.2 ++ S.stock r.1)

open List

theorem numbered_of_toList {s : σ} {r : σ × ο} (item : Option α)
    (hintake : S.intake r.2 = item.toList) (hle : S.next s ≤ S.next r.1)
    (hid : ∀ a ∈ item, S.next s ≤ S.id a ∧ S.id a < S.next r.1) : S.Numbered s r := by
  refine ⟨hle, ?_, ?_⟩
  · rw [hintake]
    exact fun a ha => hid a (Option.mem_toList.mp ha)
  · rw [hintake]
    cases item with
    | none => exact List.Pairwise.nil
    | some a => exact pairwise_singleton _ a

variable {step : σ → ε → σ × ο} (I : σ → Prop)

theorem run_balanced (hstep : ∀ s e, I s → I (step s e).1 ∧ S.Balanced s (step s e)) (s : σ)
    (hs : I s) (es : List ε) : ((Mealy.outputs step s es).flatMap S.intake ++ S.stock s).Perm
      ((Mealy.outputs step s es).flatMap S.outtake ++ S.stock (Mealy.final step s es)) := by
  induction es generalizing s with
  | nil => exact List.Perm.refl _
  | cons e es ih =>
    rcases hstep s e hs with ⟨hnext, hbalanced⟩
    simp only [Mealy.outputs_cons, Mealy.final_cons, flatMap_cons, append_assoc]
    -- intake later ++ (intake now ++ stock), and the step moves the bracket
    refine (perm_append_comm_assoc _ _ _).trans ?_
    refine (hbalanced.append_left _).trans ?_
    refine (perm_append_comm_assoc _ _ _).trans ?_
    exact (ih _ hnext).append_left _

theorem run_numbered (hstep : ∀ s e, I s → I (step s e).1 ∧ S.Numbered s (step s e)) (s : σ)
    (hs : I s) (es : List ε) :
    (∀ a ∈ (Mealy.outputs step s es).flatMap S.intake, S.next s ≤ S.id a) ∧
      ((Mealy.outputs step s es).flatMap S.intake).Pairwise fun a b => S.id a ≠ S.id b := by
  induction es generalizing s with
  | nil => exact ⟨forall_mem_nil _, List.Pairwise.nil⟩
  | cons e es ih =>
    rcases hstep s e hs with ⟨hnext, hnumbered⟩
    rcases ih _ hnext with ⟨hlow, hdistinct⟩
    rw [Mealy.outputs_cons, flatMap_cons]
    refine ⟨?_, pairwise_append.mpr ⟨hnumbered.distinct, hdistinct, ?_⟩⟩
    · intro a ha
      rcases mem_append.mp ha with ha | ha
      · exact (hnumbered.intake_id a ha).1
      · exact Nat.le_trans hnumbered.next_le (hlow a ha)
    · -- later items have later numbers
      intro a ha b hb
      have h1 := (hnumbered.intake_id a ha).2
      have h2 := hlow b hb
      omega

theorem run_ordered (hstep : ∀ s e, I s → I (step s e).1 ∧ S.Ordered s (step s e)) (s : σ)
    (hs : I s) (es : List ε) : (S.stock s).Sublist
      ((Mealy.outputs step s es).flatMap S.outtake ++ S.stock (Mealy.final step s es)) := by
  induction es generalizing s with
  | nil => exact List.Sublist.refl _
  | cons e es ih =>
    obtain ⟨hnext, hordered⟩ := hstep s e hs
    rw [Mealy.outputs_cons, Mealy.final_cons, flatMap_cons, append_assoc]
    exact hordered.trans ((ih _ hnext).append_left _)

theorem not_sublist_swap {a b : α} {l : List α} (hnodup : l.Nodup) (hab : [a, b].Sublist l) :
    ¬ [b, a].Sublist l := by
  induction l with
  | nil => cases hab
  | cons x l ih =>
    intro hba
    obtain ⟨hx, hl⟩ := nodup_cons.mp hnodup
    rcases cons_sublist_cons'.mp hab with hab' | ⟨rfl, hb⟩
    · rcases cons_sublist_cons'.mp hba with hba' | ⟨rfl, ha⟩
      · exact ih hl hab' hba'
      · exact hx (hab'.subset (by simp))
    · -- the first item is the head, so it is not behind the second one
      rcases cons_sublist_cons'.mp hba with hba' | ⟨rfl, ha⟩
      · exact hx (hba'.subset (by simp))
      · exact hx (ha.subset (by simp))

end Stock
