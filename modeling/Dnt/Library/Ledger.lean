import Mathlib.Data.List.Nodup
import Mathlib.Data.List.Perm.Subperm

/-!
# Ledgers of Allocated Objects

Objects that are allocated, used and freed by hand. A proof about a program goes
through its operations with one rule each, so that only the list of holders has to be
worked out.

## Main definitions

* `Ledger`: The objects that are live and those that were, and the faults there have been.
* `Ledger.Owned`: The objects held, each as often as it is held, are the live ones.
* `Ledger.Extends`: One ledger is a later one.

## Theorems

* `Ledger.live_perm_of_extends`: Equal holders mean equal live objects.
-/

structure Ledger (α : Type*) where
  live : List (Nat × α)
  next : Nat
  freed : List Nat
  fault : Bool

namespace Ledger

variable {α : Type*}

def empty : Ledger α :=
  ⟨[], 0, [], false⟩

def ids (l : Ledger α) : List Nat :=
  l.live.map Prod.fst

def lookup (l : Ledger α) (id : Nat) : Option α :=
  (l.live.find? fun e => e.1 = id).map Prod.snd

/-- A new object. Its number is `l.next`. -/
def alloc (l : Ledger α) (a : α) : Ledger α :=
  { l with live := (l.next, a) :: l.live, next := l.next + 1 }

/-- Read or write an object. -/
def use (l : Ledger α) (id : Nat) : Ledger α :=
  if id ∈ l.ids then l else { l with fault := true }

/-- Dispose of an object. -/
def free (l : Ledger α) (id : Nat) : Ledger α :=
  if id ∈ l.ids then
    { l with live := l.live.eraseP (fun e => e.1 = id), freed := id :: l.freed }
  else { l with fault := true }

/-- Nothing has gone wrong, every live object has exactly one holder, and every
object there ever was is live or was freed once. -/
structure Owned (l : Ledger α) (holders : List Nat) : Prop where
  sound : l.fault = false
  holders : holders.Perm l.ids
  accounts : (l.freed ++ l.ids).Perm (List.range l.next)

/-- The second ledger is a later one: its older objects are among those of the
first. -/
structure Extends (l l' : Ledger α) : Prop where
  next_le : l.next ≤ l'.next
  live_old : ∀ e ∈ l'.live, e.1 < l.next → e ∈ l.live

variable {l l' : Ledger α} {hs hs' : List Nat} {id : Nat}

open List

theorem owned_empty : Owned (empty : Ledger α) [] :=
  ⟨rfl, List.Perm.nil, List.Perm.nil⟩

theorem Owned.perm (h : Owned l hs) (hp : hs.Perm hs') : Owned l hs' :=
  ⟨h.sound, hp.symm.trans h.holders, h.accounts⟩

theorem Owned.ids_nodup (h : Owned l hs) : l.ids.Nodup := by
  have hall : (l.freed ++ l.ids).Nodup := h.accounts.nodup_iff.mpr nodup_range
  exact (nodup_append.mp hall).2.1

theorem Owned.lt_next (h : Owned l hs) (id : Nat) (hid : id ∈ l.ids) : id < l.next :=
  mem_range.mp (h.accounts.subset (mem_append_right _ hid))

theorem Owned.alloc (h : Owned l hs) (a : α) : Owned (l.alloc a) (l.next :: hs) := by
  refine ⟨h.sound, h.holders.cons _, ?_⟩
  have hrange : (List.range (l.next + 1)).Perm (l.next :: List.range l.next) := by
    rw [range_succ]
    exact perm_append_singleton _ _
  exact perm_middle.trans ((h.accounts.cons _).trans hrange.symm)

theorem Owned.use (h : Owned l hs) (id : Nat) (hid : id ∈ hs) : l.use id = l := by
  unfold Ledger.use
  rw [if_pos (h.holders.subset hid)]

theorem live_perm_eraseP {l : Ledger α} {id : Nat} (hid : id ∈ l.ids) :
    ∃ a, l.lookup id = some a ∧ l.live.Perm ((id, a) :: l.live.eraseP fun e => e.1 = id) := by
  rcases mem_map.mp hid with ⟨⟨id', a⟩, hmem, rfl⟩
  have hfound : decide ((id', a).1 = id') = true := decide_eq_true rfl
  -- what is taken out, and what is looked up, is the first entry with this number
  rcases @List.exists_of_eraseP _ (fun e => decide (e.1 = id')) l.live (id', a) hmem hfound with
    ⟨e, l₁, l₂, hbefore, he, hlive, herase⟩
  have hid : e.1 = id' := of_decide_eq_true he
  refine ⟨e.2, ?_, ?_⟩
  · have hfind : l.live.find? (fun e => decide (e.1 = id')) = some e := by
      rw [hlive, find?_append, find?_eq_none.mpr hbefore]
      simp [he]
    unfold lookup
    rw [hfind]
    rfl
  · rw [herase, ← hid]
    exact (List.Perm.of_eq hlive).trans perm_middle

theorem Owned.free (h : Owned l (id :: hs)) : Owned (l.free id) hs := by
  have hid : id ∈ l.ids := h.holders.subset mem_cons_self
  rcases live_perm_eraseP hid with ⟨a, _, hperm⟩
  have hids : l.ids.Perm (id :: (l.live.eraseP fun e => e.1 = id).map Prod.fst) := hperm.map _
  unfold Ledger.free
  rw [if_pos hid]
  refine ⟨h.sound, ?_, ?_⟩
  · exact (perm_cons id).mp (h.holders.trans hids)
  · refine List.Perm.trans ?_ h.accounts
    exact perm_middle.symm.trans (hids.symm.append_left _)

theorem live_free (h : Owned l (id :: hs)) :
    ∃ a, l.lookup id = some a ∧ l.live.Perm ((id, a) :: (l.free id).live) := by
  have hid : id ∈ l.ids := h.holders.subset mem_cons_self
  unfold Ledger.free
  rw [if_pos hid]
  exact live_perm_eraseP hid

theorem extends_refl (l : Ledger α) : Extends l l :=
  ⟨Nat.le_refl _, fun _ he _ => he⟩

theorem Extends.trans {l'' : Ledger α} (h : Extends l l') (h' : Extends l' l'') :
    Extends l l'' := by
  refine ⟨Nat.le_trans h.next_le h'.next_le, ?_⟩
  intro e he hlt
  exact h.live_old e (h'.live_old e he (Nat.lt_of_lt_of_le hlt h.next_le)) hlt

theorem extends_alloc (l : Ledger α) (a : α) : Extends l (l.alloc a) := by
  refine ⟨Nat.le_succ _, ?_⟩
  intro e he hlt
  rcases mem_cons.mp he with rfl | he
  · exact absurd hlt (Nat.lt_irrefl _)
  · exact he

theorem extends_use (l : Ledger α) (id : Nat) : Extends l (l.use id) := by
  unfold Ledger.use
  split_ifs
  · exact extends_refl l
  · exact ⟨Nat.le_refl _, fun _ he _ => he⟩

theorem extends_free (l : Ledger α) (id : Nat) : Extends l (l.free id) := by
  unfold Ledger.free
  split_ifs
  · exact ⟨Nat.le_refl _, fun _ he _ => eraseP_sublist.subset he⟩
  · exact ⟨Nat.le_refl _, fun _ he _ => he⟩

theorem live_perm_of_extends (h : Owned l hs) (h' : Owned l' hs') (hext : Extends l l')
    (hsame : hs'.Perm hs) : l'.live.Perm l.live := by
  have hids : l'.ids.Perm l.ids := h'.holders.symm.trans (hsame.trans h.holders)
  have hsub : l'.live ⊆ l.live := by
    -- an object that is held was already held before, so it is an old one
    intro e he
    refine hext.live_old e he (h.lt_next e.1 ?_)
    exact hids.subset (mem_map_of_mem he)
  have hnodup : l'.live.Nodup := h'.ids_nodup.of_map
  refine (subperm_of_subset hnodup hsub).perm_of_length_le ?_
  have hlen := hids.length_eq
  simp only [ids, length_map] at hlen
  exact Nat.le_of_eq hlen.symm

end Ledger
