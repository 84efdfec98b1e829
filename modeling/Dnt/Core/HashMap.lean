import Mathlib.Algebra.Order.Ring.Int
import Mathlib.Data.List.Basic

/-!
# Hash Maps

The hash map of `lib/parsers`, which the program uses for everything that has a
name. The model is the list of entries. Where an entry is depends on the hash of its
key, but only the order in which the entries are visited shows it, and nothing
here depends on that order.

## Main definitions

* `hashmapFind`, `hashmapRemove`: Looking a name up, and removing it.
* `hashmapInsert`: Inserting a key that is there overrides its value.

## Theorems

* `hashmapFind_insert`, `hashmapFind_remove`: What is found afterwards.
* `countP_hashmapInsert`: Counting after a value is overridden.
-/

namespace Dnt

variable {key : String}

abbrev HashMap (α : Type*) : Type _ :=
  List (String × α)

variable {α : Type*}

/-- A value under the same key is replaced in its place. -/
def hashmapInsert : HashMap α → String → α → HashMap α
  | [], key, value => [(key, value)]
  | e :: rest, key, value =>
    if e.1 = key then (key, value) :: rest else e :: hashmapInsert rest key value

def hashmapRemove (h : HashMap α) (key : String) : HashMap α :=
  h.filter fun e => decide (e.1 ≠ key)

def hashmapFind : HashMap α → String → Option α
  | [], _ => none
  | e :: rest, key => if e.1 = key then some e.2 else hashmapFind rest key

def hashmapContains : HashMap α → String → Bool
  | [], _ => false
  | e :: rest, key => if e.1 = key then true else hashmapContains rest key

open List

theorem hashmapFind_insert (h : HashMap α) (key : String) (value : α) (key' : String) :
    hashmapFind (hashmapInsert h key value) key' =
      if key = key' then some value else hashmapFind h key' := by
  induction h with
  | nil => rfl
  | cons e rest ih =>
    unfold hashmapInsert
    by_cases he : e.1 = key
    · rw [if_pos he]
      simp only [hashmapFind]
      by_cases hkey : key = key'
      · rw [if_pos hkey, if_pos hkey]
      · rw [if_neg hkey, if_neg hkey, if_neg (he ▸ hkey)]
    · rw [if_neg he]
      simp only [hashmapFind, ih]
      by_cases hkey : key = key'
      · rw [if_pos hkey, if_pos hkey, if_neg (hkey ▸ he)]
      · rw [if_neg hkey, if_neg hkey]

theorem hashmapFind_map {β : Type*} (f : α → β) (h : HashMap α) (key : String) :
    hashmapFind (h.map fun e => (e.1, f e.2)) key = (hashmapFind h key).map f := by
  induction h with
  | nil => rfl
  | cons e rest ih =>
    simp only [map_cons, hashmapFind, ih]
    grind

theorem hashmapFind_eq_none {h : HashMap α} (hkey : ∀ e ∈ h, e.1 ≠ key) :
    hashmapFind h key = none := by
  induction h with
  | nil => rfl
  | cons e rest ih =>
    simp only [hashmapFind]
    rw [if_neg (hkey e mem_cons_self)]
    exact ih fun x hx => hkey x (mem_cons_of_mem e hx)

theorem hashmapFind_isSome_of_mem {h : HashMap α} (hkey : key ∈ h.map Prod.fst) :
    ∃ value, hashmapFind h key = some value := by
  induction h with
  | nil => exact absurd hkey not_mem_nil
  | cons e rest ih =>
    simp only [hashmapFind]
    split_ifs <;> grind

theorem hashmapFind_remove (h : HashMap α) (key key' : String) :
    hashmapFind (hashmapRemove h key) key' = if key = key' then none else hashmapFind h key' := by
  induction h with
  | nil => exact (ite_self none).symm
  | cons e rest ih =>
    unfold hashmapRemove at ih ⊢
    by_cases he : e.1 = key
    · rw [filter_cons_of_neg (by simp [he]), ih]
      simp only [hashmapFind]
      by_cases hkey : key = key'
      · rw [if_pos hkey, if_pos hkey]
      · rw [if_neg hkey, if_neg hkey, if_neg (he ▸ hkey)]
    · rw [filter_cons_of_pos (by simp [he])]
      simp only [hashmapFind, ih]
      by_cases hkey : key = key'
      · rw [if_pos hkey, if_pos hkey, if_neg (hkey ▸ he)]
      · rw [if_neg hkey, if_neg hkey]

theorem hashmapContains_cons (e : String × α) (rest : HashMap α) (key : String) :
    hashmapContains (e :: rest) key = true ↔ e.1 = key ∨ hashmapContains rest key = true := by
  simp only [hashmapContains]
  grind

theorem hashmapContains_iff (h : HashMap α) (key : String) :
    hashmapContains h key = true ↔ ∃ e ∈ h, e.1 = key := by
  induction h with
  | nil => exact iff_of_false Bool.false_ne_true fun ⟨_, h, _⟩ => not_mem_nil h
  | cons e rest ih => rw [hashmapContains_cons, ih, exists_mem_cons_iff]

theorem hashmapContains_insert (h : HashMap α) (key : String) (value : α) (key' : String) :
    hashmapContains (hashmapInsert h key value) key' = true ↔
      key = key' ∨ hashmapContains h key' = true := by
  induction h with
  | nil => exact hashmapContains_cons (key, value) [] key'
  | cons e rest ih =>
    unfold hashmapInsert
    by_cases he : e.1 = key
    · rw [if_pos he, hashmapContains_cons, hashmapContains_cons, he]
      exact or_self_left.symm
    · rw [if_neg he, hashmapContains_cons, hashmapContains_cons, ih]
      exact or_left_comm

theorem countP_hashmapInsert (p : α → Bool) {h : HashMap α} {old : α} (new : α)
    (hfind : hashmapFind h key = some old) :
    List.countP (fun e => p e.2) (hashmapInsert h key new) + (p old).toNat =
      List.countP (fun e => p e.2) h + (p new).toNat := by
  induction h with
  | nil => cases hfind
  | cons e rest ih =>
    simp only [hashmapFind] at hfind
    unfold hashmapInsert
    by_cases he : e.1 = key
    · rw [if_pos he] at hfind ⊢
      cases hfind
      rw [countP_cons, countP_cons]
      cases p e.2 <;> cases p new <;> simp
    · rw [if_neg he] at hfind ⊢
      have hrest := ih hfind
      rw [countP_cons, countP_cons]
      omega

end Dnt
