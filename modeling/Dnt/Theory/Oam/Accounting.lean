import Mathlib.Data.List.Perm.Basic
import Dnt.Core.OamAccounting
import Dnt.Library.Mealy

/-!
# Reference Counts are the Number of Users

The count of a maintenance point should be the number of OAM actions that name it
and of requests with a session that were started from it. Operations keep to this
except on a few paths: the command that shows a point keeps a reference, an assembly
that fails forgets those of its actions, refused requests are not deleted or are
deleted while a session has them, and a signal that can't be packed gives one back
that it never had.

## Main definitions

* `Accounted`: Every count is the number of users of its point.
* `MpOperation.Balanced`: An operation gives back every reference it takes, or passes it on.

## Theorems

* `accounted_step_iff`: An operation keeps counts and users equal just if it is balanced.
* `mpRun_accounted_iff`: They are equal all along a run just if all its operations are.
-/

namespace Dnt

open Mealy

open List

variable {points : String → Option Int} {holders : List String} {name : String}
  {s : MpReferences}

/-- A name for each OAM action of a pipeline, and for each request. -/
def MpReferences.users (s : MpReferences) : List String :=
  s.pipelines.flatten ++ s.requests

/-- The point exists if it has users, with their number as its count. -/
def pointOf (users : Nat) : Option Int :=
  if users = 0 then none else some users

/-- The references are those of the holders. -/
def Counts (points : String → Option Int) (holders : List String) : Prop :=
  ∀ name, points name = pointOf (holders.count name)

def Accounted (s : MpReferences) : Prop :=
  Counts s.points s.users

/-- Every reference that is taken is given back, or has a new holder. -/
def MpOperation.Balanced (s : MpReferences) : MpOperation → Prop
  | .assembleFails created => created = []
  | .request caller name fate => s.points name = none ∨
    match fate with
    | .invalid => True
    | .refused => caller = .remote
    | .noThread _ => caller ≠ .background true ∧ caller ≠ .remote
    | .started _ => caller ≠ .background true
  | .mp name => s.points name = none
  | .unmask name fate => s.points name = none ∨ fate ≠ .unpackable
  | _ => True

theorem pointOf_succ (k : Nat) : pointOf (k + 1) = some (k + 1 : Int) := by
  rw [pointOf, if_neg (Nat.succ_ne_zero k)]
  rfl

theorem Counts.perm {holders' : List String} (h : Counts points holders)
    (hperm : holders.Perm holders') : Counts points holders' := fun name => by
  rw [h name, hperm.count_eq]

/-- What the counts say about the users. -/
theorem accounted_iff (h : Counts s.points holders) : Accounted s ↔ holders.Perm s.users := by
  refine ⟨fun hs => perm_iff_count.mpr fun name => ?_, h.perm⟩
  have hname := (h name).symm.trans (hs name)
  unfold pointOf at hname
  grind

theorem Counts.new (h : Counts points holders) (name : String) :
    Counts (oamNewMaintenancePoint points name) (name :: holders) := by
  intro x
  rw [oamNewMaintenancePoint, h name, count_cons]
  by_cases hx : x = name
  · subst hx
    cases hcount : holders.count x with
    | zero => simp [pointOf]
    | succ k => simp [pointOf_succ]
  · have hne : (name == x) = false := beq_false_of_ne (Ne.symm hx)
    cases hcount : holders.count name with
    | zero => simp [pointOf, hx, hne, h x]
    | succ k => simp [pointOf_succ, hx, hne, h x]

theorem Counts.find (h : Counts points holders) (hname : points name ≠ none) :
    Counts (findMaintenancePoint points name) (name :: holders) := by
  have hnew := h.new name
  unfold oamNewMaintenancePoint at hnew
  unfold findMaintenancePoint
  cases hpoint : points name with
  | none => exact absurd hpoint hname
  | some count => rwa [hpoint] at hnew

theorem Counts.unref (h : Counts points (name :: holders)) :
    Counts (oamUnrefMaintenancePoint points name) holders := by
  have hpoint : points name = some (holders.count name + 1 : Int) := by
    rw [h name, count_cons_self, pointOf_succ]
  intro x
  simp only [oamUnrefMaintenancePoint, hpoint]
  by_cases hx : x = name
  · subst hx
    simp only [Function.update_self, pointOf]
    grind
  · rw [Function.update_of_ne hx, h x, count_cons_of_ne (Ne.symm hx)]

theorem Counts.mem (h : Counts points holders) (hname : points name ≠ none) : name ∈ holders := by
  by_contra hno
  rw [h name, count_eq_zero_of_not_mem hno] at hname
  exact hname rfl

theorem Counts.newAll (h : Counts points holders) (names : List String) :
    Counts (names.foldl oamNewMaintenancePoint points) (names ++ holders) := by
  induction names generalizing points holders with
  | nil => exact h
  | cons name names ih => exact (ih (h.new name)).perm perm_middle

theorem Counts.unrefAll {names : List String} (h : Counts points (names ++ holders)) :
    Counts (names.foldl oamUnrefMaintenancePoint points) holders := by
  induction names generalizing points with
  | nil => exact h
  | cons name names ih => exact ih h.unref

theorem counts_stop (hs : Counts s.points (holders ++ s.users)) (i : Nat) :
    Counts (s.stop i).points (holders ++ (s.stop i).users) := by
  unfold MpReferences.stop
  cases hi : s.requests[i]? with
  | none => exact hs
  | some name =>
    obtain ⟨hlt, rfl⟩ := List.getElem?_eq_some_iff.mp hi
    refine Counts.unref (hs.perm ?_)
    have hperm := (getElem_cons_eraseIdx_perm hlt).symm
    refine (((hperm.append_left _).append_left _).trans ?_)
    rw [MpReferences.users, ← append_assoc, ← append_assoc]
    exact perm_middle

/-- With a session, a reference of its own becomes that of a user. -/
theorem counts_alloc (hs : Counts s.points (name :: s.users)) (expired : Option Nat) :
    Counts (s.alloc name expired).points (s.alloc name expired).users := by
  have hadd {s : MpReferences} (hs : Counts s.points ([name] ++ s.users)) :
      Counts s.points (s.pipelines.flatten ++ (s.requests ++ [name])) := by
    refine hs.perm ?_
    rw [← append_assoc]
    exact perm_append_comm
  cases expired with
  | none => exact hadd hs
  | some i => exact hadd (@counts_stop [name] s hs i)

/-- A reference too many, or one that was given back for a user that is still there. -/
theorem not_accounted_leak (h : Counts s.points (name :: s.users)) : ¬ Accounted s := fun hno =>
  absurd ((accounted_iff h).mp hno).length_eq (Nat.succ_ne_self _)

theorem not_accounted_unref (h : Accounted s) (hname : name ∈ s.users) :
    ¬ Accounted (s.unref name) := by
  have hunref := Counts.unref (Counts.perm h (perm_cons_erase hname))
  intro hno
  have hlength := ((accounted_iff (s := s.unref name) hunref).mp hno).length_eq
  have hpos := length_pos_of_mem hname
  rw [length_erase_of_mem hname] at hlength
  exact absurd hlength (Nat.ne_of_lt (Nat.pred_lt (Nat.ne_of_gt hpos)))

theorem accounted_issue_iff {caller : RequestCaller} {fate : RequestFate}
    (h : Counts s.points (name :: s.users)) :
    Accounted (issueRequest s caller name fate) ↔
      match fate with
      | .invalid => True
      | .refused => caller = .remote
      | .noThread _ => caller ≠ .background true ∧ caller ≠ .remote
      | .started _ => caller ≠ .background true := by
  have hleak := not_accounted_leak h
  cases fate with
  | invalid => exact iff_of_true h.unref trivial
  | refused =>
    simp only [issueRequest]
    by_cases hremote : caller = .remote
    · rw [if_pos hremote]
      exact iff_of_true h.unref hremote
    · rw [if_neg hremote]
      exact iff_of_false hleak hremote
  | noThread expired =>
    have halloc := counts_alloc h expired
    simp only [issueRequest]
    by_cases hcrowded : caller = .background true
    · rw [if_pos hcrowded]
      exact iff_of_false hleak fun hno => hno.1 hcrowded
    · rw [if_neg hcrowded]
      by_cases hremote : caller = .remote
      · rw [if_pos hremote]
        refine iff_of_false (not_accounted_unref halloc ?_) fun hno => hno.2 hremote
        exact mem_append_right _ (mem_append_right _ mem_cons_self)
      · rw [if_neg hremote]
        exact iff_of_true halloc ⟨hcrowded, hremote⟩
  | started expired =>
    simp only [issueRequest]
    by_cases hcrowded : caller = .background true
    · rw [if_pos hcrowded]
      exact iff_of_false hleak fun hno => hno hcrowded
    · rw [if_neg hcrowded]
      exact iff_of_true (counts_alloc h expired) hcrowded

/-- Looking for a point and giving it back. -/
theorem accounted_find_unref (h : Accounted s) (name : String) :
    Accounted (({ s with points := findMaintenancePoint s.points name }).unref name) := by
  by_cases hname : s.points name = none
  · simpa only [MpReferences.unref, findMaintenancePoint, oamUnrefMaintenancePoint, hname] using h
  · exact (Counts.find h hname).unref

theorem accounted_step_iff (h : Accounted s) (e : MpOperation) :
    Accounted (mpOperation s e).1 ↔ e.Balanced s := by
  cases e with
  | assemble names =>
    refine iff_of_true ((accounted_iff (Counts.newAll h names)).mpr ?_) trivial
    simp only [mpOperation, MpReferences.users, flatten_append, flatten_singleton]
    rw [← append_assoc]
    exact perm_append_comm.append_right _
  | assembleFails created =>
    -- the references of these actions have no user
    refine (accounted_iff (Counts.newAll h created)).trans ⟨fun hno => ?_, fun hnil => ?_⟩
    · have hlength := hno.length_eq
      rw [length_append] at hlength
      exact length_eq_zero_iff.mp (Nat.add_eq_right.mp hlength)
    · rw [hnil]
      rfl
  | deletePipeline i =>
    refine iff_of_true ?_ trivial
    simp only [mpOperation]
    cases hi : s.pipelines[i]? with
    | none => exact h
    | some names =>
      obtain ⟨hlt, rfl⟩ := List.getElem?_eq_some_iff.mp hi
      refine Counts.unrefAll (Counts.perm h ?_)
      simp only [MpReferences.users]
      rw [← append_assoc, ← flatten_cons]
      exact ((getElem_cons_eraseIdx_perm hlt).symm.flatten).append_right _
  | request caller name fate =>
    simp only [mpOperation, MpOperation.Balanced]
    by_cases hname : s.points name = none
    · rw [if_pos hname]
      exact iff_of_true h (.inl hname)
    · rw [if_neg hname, or_iff_right hname]
      exact accounted_issue_iff (s := { s with points := _ }) (Counts.find h hname)
  | stop i => exact iff_of_true (@counts_stop [] s h i) trivial
  | mp name =>
    by_cases hname : s.points name = none
    · refine iff_of_true ?_ hname
      simpa only [mpOperation, findMaintenancePoint, hname] using h
    · refine iff_of_false (@not_accounted_leak name _ ?_) hname
      exact Counts.find h hname
  | mask name => exact iff_of_true (accounted_find_unref h name) trivial
  | unmask name fate =>
    have hback := accounted_find_unref h name
    simp only [mpOperation, MpOperation.Balanced]
    by_cases hname : s.points name = none
    · rw [if_pos hname]
      exact iff_of_true h (.inl hname)
    · rw [if_neg hname, or_iff_right hname]
      by_cases hfate : fate = .unpackable
      · rw [if_pos hfate]
        exact iff_of_false (not_accounted_unref hback (Counts.mem h hname)) (not_not.mpr hfate)
      · rw [if_neg hfate]
        exact iff_of_true hback hfate

/-- The counts are the numbers of users after every operation of a run exactly if every
operation is balanced. -/
theorem mpRun_accounted_iff (es : List MpOperation) :
    EveryStep mpOperation (fun s e => Accounted (mpOperation s e).1) mpReferencesStart es ↔
      EveryStep mpOperation (fun s e => e.Balanced s) mpReferencesStart es := by
  refine everyStep_iff_of_invariant Accounted _ _ ?_ ?_ (fun name => rfl) es
  · exact fun s e h he => (accounted_step_iff h e).mpr he
  · exact fun s e h => accounted_step_iff h e

/-- Showing a point once keeps it. -/
theorem mp_command_leaks :
    ¬ EveryStep mpOperation (fun s e => Accounted (mpOperation s e).1) mpReferencesStart
      [.assemble ["a"], .mp "a"] := by
  rintro ⟨-, hno, -⟩
  exact absurd (hno "a") (by decide)

end Dnt
