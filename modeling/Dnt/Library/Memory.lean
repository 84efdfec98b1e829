import Mathlib.Algebra.Order.Ring.Int
import Mathlib.Data.List.Basic

/-!
# Memory

Cells at numbered positions, blocks written to them and read back. There is no end of
the memory here. Whether a write stays inside a buffer is a question about the
positions it covers.

## Main definitions

* `Memory.load`: The cells from a position on.
* `Store`, `Memory.storeAll`: A block and its position, and writing several of them.
* `Memory.blocks`: Writes of blocks one behind the other.

## Theorems

* `Memory.load_storeAll_blocks`: Blocks one behind the other are read as one block.
-/

/-- A block and the position of its first cell. -/
structure Store (α : Type*) where
  dst : Nat
  block : List α
  deriving DecidableEq, Repr

variable {α : Type*}

def Store.Covers (w : Store α) (i : Nat) : Prop :=
  w.dst ≤ i ∧ i < w.dst + w.block.length

instance (w : Store α) (i : Nat) : Decidable (w.Covers i) :=
  inferInstanceAs (Decidable (_ ∧ _))

namespace Memory

def store (m : Nat → α) (w : Store α) (i : Nat) : α :=
  if w.dst ≤ i then w.block[i - w.dst]?.getD (m i) else m i

def storeAll (m : Nat → α) (ws : List (Store α)) : Nat → α :=
  ws.foldl store m

def load (m : Nat → α) (src n : Nat) : List α :=
  (List.range n).map fun i => m (src + i)

open List

variable (m : Nat → α) (dst : Nat)

@[simp]
theorem length_load (src n : Nat) : (load m src n).length = n := by
  rw [load, length_map, length_range]

@[simp]
theorem storeAll_nil : storeAll m [] = m := rfl

@[simp]
theorem storeAll_cons (w : Store α) (ws : List (Store α)) :
    storeAll m (w :: ws) = storeAll (store m w) ws := rfl

theorem storeAll_append (ws ws' : List (Store α)) :
    storeAll m (ws ++ ws') = storeAll (storeAll m ws) ws' :=
  foldl_append

theorem store_apply_of_not_covers (w : Store α) (i : Nat) (h : ¬ w.Covers i) :
    store m w i = m i := by
  unfold store
  by_cases hle : w.dst ≤ i
  · have hlen : w.block.length ≤ i - w.dst := by
      by_contra hlt
      exact h ⟨hle, by omega⟩
    rw [if_pos hle, getElem?_eq_none hlen]
    rfl
  · rw [if_neg hle]

theorem store_apply_add (block : List α) (k : Nat)
    (h : k < block.length) : store m ⟨dst, block⟩ (dst + k) = block[k] := by
  simp only [store]
  rw [if_pos (Nat.le_add_right dst k), Nat.add_sub_cancel_left, getElem?_eq_getElem h]
  rfl

theorem store_store (old new : List α) (h : old.length = new.length) :
    store (store m ⟨dst, old⟩) ⟨dst, new⟩ = store m ⟨dst, new⟩ := by
  funext i
  by_cases hcovers : (⟨dst, new⟩ : Store α).Covers i
  · obtain ⟨k, rfl⟩ := Nat.exists_eq_add_of_le hcovers.1
    have hk : k < new.length := Nat.lt_of_add_lt_add_left hcovers.2
    rw [store_apply_add _ dst new k hk, store_apply_add _ dst new k hk]
  · have hold : ¬ (⟨dst, old⟩ : Store α).Covers i := by
      rw [Store.Covers, h]
      exact hcovers
    rw [store_apply_of_not_covers _ _ _ hcovers, store_apply_of_not_covers _ _ _ hcovers,
      store_apply_of_not_covers _ _ _ hold]

theorem storeAll_apply_of_not_covers {ws : List (Store α)} {i : Nat}
    (h : ∀ w ∈ ws, ¬ w.Covers i) : storeAll m ws i = m i := by
  induction ws generalizing m with
  | nil => rfl
  | cons w rest ih =>
    rw [storeAll_cons, ih _ fun x hx => h x (mem_cons_of_mem w hx)]
    exact store_apply_of_not_covers m w i (h w mem_cons_self)

theorem load_succ (src n : Nat) :
    load m src (n + 1) = load m src n ++ [m (src + n)] := by
  simp only [load, range_succ, map_append, map_cons, map_nil]

theorem load_min (src k n : Nat) : load m src (min k n) = (load m src n).take k := by
  rw [load, load, ← map_take, take_range]

theorem load_congr (m m' : Nat → α) (src n : Nat) (h : ∀ k < n, m (src + k) = m' (src + k)) :
    load m src n = load m' src n :=
  map_congr_left fun k hk => h k (mem_range.mp hk)

theorem load_store_append (front back : List α) :
    load (store m ⟨dst, front ++ back⟩) dst front.length = front := by
  refine ext_getElem (length_load _ _ _) fun k _ hk => ?_
  have hlt : k < (front ++ back).length := by
    rw [length_append]
    omega
  simp only [load, getElem_map, getElem_range]
  rw [store_apply_add m dst (front ++ back) k hlt, getElem_append_left hk]

theorem load_store_append_right (front back : List α) :
    load (store m ⟨dst, front ++ back⟩) (dst + front.length) back.length = back := by
  refine ext_getElem (length_load _ _ _) fun k _ hk => ?_
  have hlt : front.length + k < (front ++ back).length := by
    rw [length_append]
    omega
  simp only [load, getElem_map, getElem_range, Nat.add_assoc]
  rw [store_apply_add m dst (front ++ back) (front.length + k) hlt,
    getElem_append_right (Nat.le_add_right _ _)]
  simp

theorem load_store_self (block : List α) :
    load (store m ⟨dst, block⟩) dst block.length = block := by
  have h := load_store_append m dst block []
  rwa [append_nil] at h

theorem load_add (src n k : Nat) :
    load m src (n + k) = load m src n ++ load m (src + n) k := by
  simp only [load, range_add, map_append, map_map, Function.comp_def, Nat.add_assoc]

theorem load_storeAll_of_not_covers (ws : List (Store α)) (src n : Nat)
    (h : ∀ w ∈ ws, ∀ k < n, ¬ w.Covers (src + k)) : load (storeAll m ws) src n = load m src n :=
  load_congr _ _ _ _ fun k hk =>
    storeAll_apply_of_not_covers m fun w hw => h w hw k hk

/-- Writes of blocks one behind the other, from `dst` on. -/
def blocks : Nat → List (List α) → List (Store α)
  | _, [] => []
  | dst, b :: bs => ⟨dst, b⟩ :: blocks (dst + b.length) bs

theorem covers_blocks_iff (bs : List (List α)) (i : Nat) :
    (∃ w ∈ blocks dst bs, w.Covers i) ↔ dst ≤ i ∧ i < dst + bs.flatten.length := by
  induction bs generalizing dst with
  | nil =>
    refine ⟨fun ⟨w, hw, _⟩ => absurd hw not_mem_nil, fun hrange => ?_⟩
    rw [flatten_nil, length_nil] at hrange
    omega
  | cons b bs ih =>
    have hsplit : (∃ w ∈ blocks dst (b :: bs), w.Covers i) ↔
        (⟨dst, b⟩ : Store α).Covers i ∨ ∃ w ∈ blocks (dst + b.length) bs, w.Covers i := by
      simp [blocks, or_and_right, exists_or]
    rw [hsplit, ih, flatten_cons, length_append]
    simp only [Store.Covers]
    omega

theorem load_storeAll_blocks (bs : List (List α)) :
    load (storeAll m (blocks dst bs)) dst bs.flatten.length = bs.flatten := by
  induction bs generalizing m dst with
  | nil => rfl
  | cons b bs ih =>
    -- what follows the first block does not touch it
    have hfirst : load (storeAll (store m ⟨dst, b⟩) (blocks (dst + b.length) bs)) dst b.length =
        b := by
      rw [load_storeAll_of_not_covers, load_store_self]
      intro w hw k hk hcovers
      have hrange := (covers_blocks_iff (dst + b.length) bs (dst + k)).mp ⟨w, hw, hcovers⟩
      omega
    rw [blocks, storeAll_cons, flatten_cons, length_append, load_add, hfirst, ih]

end Memory
