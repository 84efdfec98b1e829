import Mathlib.Data.List.Induction
import Mathlib.Data.List.Nodup

/-!
# Doubly Linked Rings

Nodes at addresses, each with a link to the next one and a link to the one before. A
ring has a node of its own, the sentinel, and the other nodes follow it in a circle.
Alone it has no links. A node is put after the sentinel, and taken out before it.

## Main definitions

* `Linked.Links`: A stretch of nodes that are linked forward and back.
* `Linked.IsRing`: The nodes of a ring, in the order of the links forward.

## Theorems

* `Linked.IsRing.walk_next`, `Linked.IsRing.walk_prev`: Following the links visits the
  nodes in this order, and in the opposite one.
-/

namespace Linked

open List

variable {A : Type*}

section Links

variable {next prev next' prev' : A → Option A}

/-- From `a` over the addresses of the list to `z`, every link forward has a link
back. -/
def Links (next prev : A → Option A) : A → List A → A → Prop
  | a, [], z => next a = some z ∧ prev z = some a
  | a, b :: bs, z => (next a = some b ∧ prev b = some a) ∧ Links next prev b bs z

theorem links_append (a b z : A) (as bs : List A) :
    Links next prev a (as ++ b :: bs) z ↔ Links next prev a as b ∧ Links next prev b bs z := by
  induction as generalizing a with
  | nil => exact Iff.rfl
  | cons c cs ih => simp [Links, ih, and_assoc]

/-- Only the links forward from all but the last address count, and those back from
all but the first. -/
theorem Links.congr {a z : A} {as : List A} (h : Links next prev a as z)
    (hnext : ∀ x ∈ a :: as, next' x = next x) (hprev : ∀ x ∈ as ++ [z], prev' x = prev x) :
    Links next' prev' a as z := by
  induction as generalizing a with
  | nil =>
    exact ⟨(hnext a mem_cons_self).trans h.1, (hprev z mem_cons_self).trans h.2⟩
  | cons b bs ih =>
    refine ⟨⟨(hnext a mem_cons_self).trans h.1.1,
      (hprev b mem_cons_self).trans h.1.2⟩, ih h.2 ?_ ?_⟩
    · exact fun x hx => hnext x (mem_cons_of_mem _ hx)
    · exact fun x hx => hprev x (mem_cons_of_mem _ hx)

theorem Links.next_prev {a z : A} {as : List A} (h : Links next prev a as z) {x : A}
    (hx : x ∈ a :: as) : (next x).bind prev = some x := by
  induction as generalizing a with
  | nil =>
    rw [mem_singleton.mp hx, h.1]
    exact h.2
  | cons b bs ih =>
    by_cases hxa : x = a
    · rw [hxa, h.1.1]
      exact h.1.2
    · exact ih h.2 (mem_of_ne_of_mem hxa hx)

theorem Links.prev_next {a z : A} {as : List A} (h : Links next prev a as z) {x : A}
    (hx : x ∈ as ++ [z]) : (prev x).bind next = some x := by
  induction as generalizing a with
  | nil =>
    rw [mem_singleton.mp hx, h.2]
    exact h.1
  | cons b bs ih =>
    by_cases hxb : x = b
    · rw [hxb, h.1.2]
      exact h.1.1
    · exact ih h.2 (mem_of_ne_of_mem hxb hx)

end Links

/-- The addresses after `a` along `n` links. -/
def walk (f : A → Option A) : Nat → A → List A
  | 0, _ => []
  | n + 1, a =>
    match f a with
    | none => []
    | some b => b :: walk f n b

section Walk

variable {next prev : A → Option A}

theorem Links.walk_next {a z : A} {as : List A} (h : Links next prev a as z) :
    walk next (as.length + 1) a = as ++ [z] := by
  induction as generalizing a with
  | nil => simp only [length_nil, walk, h.1, nil_append]
  | cons b bs ih =>
    rw [length_cons, walk, h.1.1]
    simp [ih h.2]

theorem Links.walk_prev {a z : A} {as : List A} (h : Links next prev a as z) :
    walk prev (as.length + 1) z = as.reverse ++ [a] := by
  induction as using List.reverseRecOn generalizing z with
  | nil => simp only [length_nil, walk, h.2, reverse_nil, nil_append]
  | append_singleton bs b ih =>
    obtain ⟨hinit, hlast⟩ := (links_append a b z bs []).mp h
    rw [length_append, length_singleton, walk, hlast.2]
    simp [ih hinit]

end Walk

/-- The nodes of the ring with this sentinel, in the order of the links forward. -/
structure IsRing (next prev : A → Option A) (sentinel : A) (as : List A) : Prop where
  nodup : (sentinel :: as).Nodup
  empty : as = [] → next sentinel = none ∧ prev sentinel = none
  links : as ≠ [] → Links next prev sentinel as sentinel

namespace IsRing

variable {next prev : A → Option A} {sentinel : A} {as : List A}

theorem congr {next' prev' : A → Option A} (h : IsRing next prev sentinel as)
    (hnext : ∀ x ∈ sentinel :: as, next' x = next x)
    (hprev : ∀ x ∈ sentinel :: as, prev' x = prev x) : IsRing next' prev' sentinel as := by
  refine ⟨h.nodup, fun hempty => ?_, fun hne => ?_⟩
  · rw [hnext _ mem_cons_self, hprev _ mem_cons_self]
    exact h.empty hempty
  · refine (h.links hne).congr hnext fun x hx => hprev x ?_
    obtain hmem | hz := mem_append.mp hx
    · exact mem_cons_of_mem _ hmem
    · exact mem_singleton.mp hz ▸ mem_cons_self

theorem next_prev (h : IsRing next prev sentinel as) (hne : as ≠ []) {x : A}
    (hx : x ∈ sentinel :: as) : (next x).bind prev = some x :=
  (h.links hne).next_prev hx

theorem prev_next (h : IsRing next prev sentinel as) (hne : as ≠ []) {x : A}
    (hx : x ∈ sentinel :: as) : (prev x).bind next = some x := by
  refine (h.links hne).prev_next ?_
  obtain hz | hmem := mem_cons.mp hx
  · exact mem_append_right _ (hz ▸ mem_singleton_self _)
  · exact mem_append_left _ hmem

theorem walk_next (h : IsRing next prev sentinel as) (hne : as ≠ []) :
    walk next (as.length + 1) sentinel = as ++ [sentinel] :=
  (h.links hne).walk_next

theorem walk_prev (h : IsRing next prev sentinel as) (hne : as ≠ []) :
    walk prev (as.length + 1) sentinel = as.reverse ++ [sentinel] :=
  (h.links hne).walk_prev

theorem first (h : IsRing next prev sentinel as) : next sentinel = as.head? := by
  cases as with
  | nil => exact (h.empty rfl).1
  | cons a rest => exact (h.links (cons_ne_nil _ _)).1.1

/-- The node before the sentinel is the last one, and it is the one after it if there
is no other. -/
theorem last {del : A} (h : IsRing next prev sentinel (as ++ [del])) :
    prev sentinel = some del ∧ next del = some sentinel ∧ (next sentinel = some del ↔ as = []) := by
  obtain ⟨-, hlast⟩ := (links_append _ _ _ as []).mp (h.links (by simp))
  refine ⟨hlast.2, hlast.1, ?_⟩
  rw [h.first]
  cases as with
  | nil => simp
  | cons a rest =>
    -- the first one is not the last, since all are different
    have hnodup := (nodup_cons.mp h.nodup).2
    rw [cons_append, nodup_cons] at hnodup
    have hne : a ≠ del := fun heq => hnodup.1 (by simp [heq])
    simp [hne]

variable [DecidableEq A]

/-- A node put between the sentinel and what it was linked to, which is the sentinel
itself in an empty ring. -/
theorem insert (h : IsRing next prev sentinel as) {n : A} (hn : n ∉ sentinel :: as) :
    IsRing (Function.update (Function.update next n (some ((next sentinel).getD sentinel)))
        sentinel (some n)) (Function.update (Function.update prev n (some sentinel))
        ((next sentinel).getD sentinel) (some n)) sentinel (n :: as) := by
  have hns : n ≠ sentinel := fun heq => hn (heq ▸ mem_cons_self)
  have hnas : n ∉ as := fun hmem => hn (mem_cons_of_mem _ hmem)
  obtain ⟨hsas, has⟩ := nodup_cons.mp h.nodup
  refine ⟨?_, fun hempty => absurd hempty (cons_ne_nil _ _), fun _ => ?_⟩
  · refine nodup_cons.mpr ⟨?_, nodup_cons.mpr ⟨hnas, has⟩⟩
    exact fun hmem => hsas (mem_of_ne_of_mem hns.symm hmem)
  · cases has' : as with
    | nil =>
      rw [(h.empty has').1]
      simp [Links, hns]
    | cons first rest =>
      subst has'
      have hlinks := h.links (cons_ne_nil _ _)
      have hfn : first ≠ n := fun heq => hnas (heq ▸ mem_cons_self)
      have hfs : first ≠ sentinel := fun heq => hsas (heq ▸ mem_cons_self)
      rw [h.first, head?_cons, Option.getD_some]
      refine ⟨⟨by simp, by simp [hfn.symm]⟩,
        ⟨by simp [hns], by simp⟩, ?_⟩
      -- the links from the first node on are as they were
      refine hlinks.2.congr (fun x hx => ?_) (fun x hx => ?_)
      · have hxs : x ≠ sentinel := fun heq => hsas (heq ▸ hx)
        have hxn : x ≠ n := fun heq => hnas (heq ▸ hx)
        simp [hxs, hxn]
      · have hxf : x ≠ first := by
          rintro rfl
          obtain hmem | hmem := mem_append.mp hx
          · exact (nodup_cons.mp has).1 hmem
          · exact hfs (mem_singleton.mp hmem)
        have hxn : x ≠ n := by
          rintro rfl
          obtain hmem | hmem := mem_append.mp hx
          · exact hnas (mem_cons_of_mem _ hmem)
          · exact hns (mem_singleton.mp hmem)
        simp [hxf, hxn]

theorem cleared (next prev : A → Option A) (sentinel : A) :
    IsRing (Function.update next sentinel none) (Function.update prev sentinel none) sentinel [] :=
  ⟨nodup_singleton _, fun _ => by simp, fun hne => absurd rfl hne⟩

theorem remove {del before : A} (h : IsRing next prev sentinel (as ++ [before] ++ [del])) :
    prev del = some before ∧ IsRing (Function.update next before (some sentinel))
        (Function.update prev sentinel (some before)) sentinel (as ++ [before]) := by
  have hlinks := h.links (by simp)
  obtain ⟨hinit, hlast⟩ := (links_append _ _ _ (as ++ [before]) []).mp hlinks
  obtain ⟨hinit, hbefore⟩ := (links_append _ _ _ as []).mp hinit
  obtain ⟨hs, hnodup⟩ := nodup_cons.mp h.nodup
  have hsb : before ≠ sentinel := fun heq => hs (by simp [heq])
  have hsas : sentinel ∉ as := fun hmem => hs (by simp [hmem])
  have hbas : before ∉ as := by
    have := (nodup_append.mp (nodup_append.mp hnodup).1).2.2
    exact fun hmem => this before hmem before (mem_singleton_self _) rfl
  refine ⟨hbefore.2, ?_, fun hempty => by simp at hempty, fun _ => ?_⟩
  · refine nodup_cons.mpr ⟨fun hmem => hs (mem_append_left _ hmem), ?_⟩
    exact (nodup_append.mp hnodup).1
  · refine (links_append _ _ _ as []).mpr ⟨hinit.congr (fun x hx => ?_) (fun x hx => ?_), ?_⟩
    · have hxb : x ≠ before := by
        rintro rfl
        obtain heq | hmem := mem_cons.mp hx
        · exact hsb heq
        · exact hbas hmem
      simp [hxb]
    · have hxs : x ≠ sentinel := by
        rintro rfl
        obtain hmem | hmem := mem_append.mp hx
        · exact hsas hmem
        · exact hsb (mem_singleton.mp hmem).symm
      simp [hxs]
    · exact ⟨by simp, by simp⟩

end IsRing

end Linked
