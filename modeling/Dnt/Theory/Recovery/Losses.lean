import Dnt.Library.Runs
import Dnt.Theory.Recovery.Vector

/-!
# Losses Tallied by Vector Recovery

A number that is not passed while it is in the history window is lost, and vector
recovery counts it when its cell leaves the window empty. But at first the older
cells stand for numbers before the first one accepted, and they are counted as
losses too when they leave.

The books say what should be counted, with a ledger for every epoch. From this the
lost numbers are known as a set, and so are the older numbers that left the window,
and the runs of consecutive lost numbers. The counters are right exactly if no older
number left that way. Since they are `int`s, this is as long as they have room for
what is counted.

## Main definitions

* `Reference.Ledger`, `Reference.Books`: What should be counted, in an epoch and in all.
* `Tallied`: Unbounded counters against the books.
* `ShownAs`, `TalliedInts`: The `int`s of the code against the unbounded counters, and
  through these against the books.

## Theorems

* `tallied_leave`: The unbounded counters follow the books when a number leaves.
* `shownAs_leave`: The `int`s follow the unbounded counters.
* `vectorRecovery_losses_iff`: The counters are right exactly if no number older
  than the first one left the window without having been passed, and exactly as long
  as the losses fit an `int` where there is none.
-/

namespace Dnt

open Mealy

variable {r : SequenceRecovery}

open SequenceRecovery

namespace Reference

def unpassed (passed : Finset Int) (low high : Int) : Finset Int :=
  (Runs.above low high).filter (· ∉ passed)

/-- An epoch and the first number accepted in it. When the longest loss was
cleared, the numbers up to `reported` had left the window. -/
structure Ledger where
  first : Int
  epoch : Epoch
  reported : Int

namespace Ledger

/-- The numbers newer than the first that left the window of `H` cells without
having been passed. -/
def lost (H : Nat) (l : Ledger) : Finset Int :=
  unpassed l.epoch.passed l.first (l.epoch.top - H)

/-- The numbers older than the first for which there was a cell, and that left
the window without having been passed. -/
def older (H : Nat) (l : Ledger) : Finset Int :=
  unpassed l.epoch.passed (l.first - H) (min (l.first - 1) (l.epoch.top - H))

def clear (H : Nat) (l : Ledger) : Ledger :=
  { l with reported := l.epoch.top - H }

def raise (l : Ledger) : Ledger :=
  { l with epoch := { l.epoch with top := l.epoch.top + 1 } }

structure WellKept (H : Nat) (l : Ledger) : Prop where
  first_mem : l.first ∈ l.epoch.passed
  first_le : l.first ≤ l.epoch.top
  reported_le : l.reported ≤ l.epoch.top - H

end Ledger

/-- The ledger of the epoch that is going on, if there is one, and those of the
epochs before it. -/
structure Books where
  current : Option Ledger
  past : List Ledger

namespace Books

def ledgers (b : Books) : List Ledger :=
  b.current.toList ++ b.past

/-- How many numbers were lost. -/
def lost (H : Nat) (b : Books) : Nat :=
  (b.ledgers.map fun l => (l.lost H).card).sum

/-- How many older numbers left the window without having been passed. -/
def older (H : Nat) (b : Books) : Nat :=
  (b.ledgers.map fun l => (l.older H).card).sum

/-- The lengths of the runs of consecutive lost numbers of an epoch that went on
after the longest one was last cleared. No loss has length zero. -/
def runs (H : Nat) (b : Books) : Set Int :=
  {n | n = 0 ∨ ∃ l ∈ b.ledgers, n ∈ Runs.lengths (l.lost H) l.reported}

/-- A packet, as the filter decides on it. The first one begins a ledger. -/
def packet (H : Nat) (seq : Nat) (b : Books) : Books :=
  { b with
    current := (Reference.packet H seq (b.current.map Ledger.epoch)).1.map fun e =>
      match b.current with
      | none => ⟨e.top, e, e.top - H⟩
      | some l => { l with epoch := e } }

def step (H : Nat) (b : Books) : LossEvent → Books × Unit
  | .recovery (.packet seq) => (b.packet H (seq % 65536), ())
  | .recovery .reset => (⟨none, b.ledgers⟩, ())
  | .cleared => (⟨b.current.map (Ledger.clear H), b.past.map (Ledger.clear H)⟩, ())

end Books

section Unpassed

variable (passed : Finset Int) (low high : Int)

theorem mem_unpassed (x : Int) :
    x ∈ unpassed passed low high ↔ (low < x ∧ x ≤ high) ∧ x ∉ passed := by
  rw [unpassed, Finset.mem_filter, Runs.mem_above]

theorem unpassed_le (x : Int) (hx : x ∈ unpassed passed low high) : x ≤ high :=
  ((mem_unpassed passed low high x).mp hx).1.2

theorem unpassed_eq_empty (h : high ≤ low) : unpassed passed low high = ∅ := by
  rw [Finset.eq_empty_iff_forall_notMem]
  intro x hx
  obtain ⟨⟨hlow, hhigh⟩, -⟩ := (mem_unpassed passed low high x).mp hx
  omega

theorem unpassed_insert (u : Int) (hu : high < u) :
    unpassed (insert u passed) low high = unpassed passed low high := by
  ext x
  rw [mem_unpassed, mem_unpassed, Finset.mem_insert]
  constructor
  · rintro ⟨hrange, hnot⟩
    exact ⟨hrange, fun hmem => hnot (Or.inr hmem)⟩
  · rintro ⟨hrange, hnot⟩
    refine ⟨hrange, ?_⟩
    rintro (rfl | hmem)
    · omega
    · exact hnot hmem

theorem unpassed_succ_of_mem (h : high + 1 ∈ passed) :
    unpassed passed low (high + 1) = unpassed passed low high := by
  ext x
  rw [mem_unpassed, mem_unpassed]
  constructor
  · rintro ⟨⟨hlow, hhigh⟩, hnot⟩
    have hne : x ≠ high + 1 := fun heq => hnot (heq ▸ h)
    exact ⟨⟨hlow, by omega⟩, hnot⟩
  · rintro ⟨⟨hlow, hhigh⟩, hnot⟩
    exact ⟨⟨hlow, by omega⟩, hnot⟩

theorem unpassed_succ_of_notMem (hlow : low ≤ high) (h : high + 1 ∉ passed) :
    unpassed passed low (high + 1) = insert (high + 1) (unpassed passed low high) := by
  ext x
  rw [Finset.mem_insert, mem_unpassed, mem_unpassed]
  constructor
  · rintro ⟨⟨hl, hh⟩, hnot⟩
    by_cases hx : x = high + 1
    · exact Or.inl hx
    · exact Or.inr ⟨⟨hl, by omega⟩, hnot⟩
  · rintro (rfl | ⟨⟨hl, hh⟩, hnot⟩)
    · exact ⟨⟨by omega, le_refl _⟩, h⟩
    · exact ⟨⟨hl, by omega⟩, hnot⟩

theorem card_unpassed_succ (hlow : low ≤ high) (h : high + 1 ∉ passed) :
    (unpassed passed low (high + 1)).card = (unpassed passed low high).card + 1 := by
  rw [unpassed_succ_of_notMem passed low high hlow h, Finset.card_insert_of_notMem]
  intro hmem
  have := unpassed_le passed low high _ hmem
  omega

end Unpassed

section Raise

variable (H : Nat) (l : Ledger)

theorem raise_of_mem (h : l.epoch.top - H + 1 ∈ l.epoch.passed) :
    l.raise.lost H = l.lost H ∧ l.raise.older H = l.older H := by
  have hfloor : l.epoch.top + 1 - (H : Int) = l.epoch.top - H + 1 := by omega
  constructor
  · simp only [Ledger.lost, Ledger.raise, hfloor]
    exact unpassed_succ_of_mem _ _ _ h
  · simp only [Ledger.older, Ledger.raise, hfloor]
    by_cases hold : l.epoch.top - H + 1 ≤ l.first - 1
    · rw [min_eq_right hold, min_eq_right (by omega)]
      exact unpassed_succ_of_mem _ _ _ h
    · rw [min_eq_left (by omega), min_eq_left (by omega)]

theorem raise_newer (hnot : l.epoch.top - H + 1 ∉ l.epoch.passed)
    (hnew : l.first ≤ l.epoch.top - H) :
    l.raise.lost H = insert (l.epoch.top - H + 1) (l.lost H) ∧
      (l.raise.lost H).card = (l.lost H).card + 1 ∧ l.raise.older H = l.older H := by
  have hfloor : l.epoch.top + 1 - (H : Int) = l.epoch.top - H + 1 := by omega
  simp only [Ledger.lost, Ledger.older, Ledger.raise, hfloor]
  refine ⟨unpassed_succ_of_notMem _ _ _ hnew hnot, card_unpassed_succ _ _ _ hnew hnot, ?_⟩
  rw [min_eq_left (by omega), min_eq_left (by omega)]

theorem raise_older (hnot : l.epoch.top - H + 1 ∉ l.epoch.passed) (hfirst : l.first ≤ l.epoch.top)
    (hold : l.epoch.top - H + 1 < l.first) :
    l.raise.lost H = l.lost H ∧ (l.raise.older H).card = (l.older H).card + 1 := by
  have hfloor : l.epoch.top + 1 - (H : Int) = l.epoch.top - H + 1 := by omega
  simp only [Ledger.lost, Ledger.older, Ledger.raise, hfloor]
  constructor
  · rw [unpassed_eq_empty _ _ _ (by omega), unpassed_eq_empty _ _ _ (by omega)]
  · rw [min_eq_right (by omega), min_eq_right (by omega)]
    exact card_unpassed_succ _ _ _ (by omega) hnot

theorem raise_wellKept (h : l.WellKept H) : l.raise.WellKept H := by
  obtain ⟨hmem, hle, hrep⟩ := h
  refine ⟨hmem, ?_, ?_⟩
  · show l.first ≤ l.epoch.top + 1
    omega
  · show l.reported ≤ l.epoch.top + 1 - H
    omega

end Raise

theorem lost_insert (H : Nat) (l : Ledger) (u : Int) (hu : l.epoch.top - H < u) :
    Ledger.lost H { l with epoch := { l.epoch with passed := insert u l.epoch.passed } } =
      l.lost H :=
  unpassed_insert _ _ _ u hu

theorem older_insert (H : Nat) (l : Ledger) (u : Int) (hu : l.epoch.top - H < u) :
    Ledger.older H { l with epoch := { l.epoch with passed := insert u l.epoch.passed } } =
      l.older H :=
  unpassed_insert _ _ _ u (lt_of_le_of_lt (min_le_right _ _) hu)

namespace Books

variable (H : Nat) (l : Ledger) (past : List Ledger)

@[simp] theorem lost_some : lost H ⟨some l, past⟩ = (l.lost H).card + lost H ⟨none, past⟩ := rfl

@[simp] theorem older_some : older H ⟨some l, past⟩ = (l.older H).card + older H ⟨none, past⟩ := rfl

theorem runs_some :
    runs H ⟨some l, past⟩ = runs H ⟨none, past⟩ ∪ Runs.lengths (l.lost H) l.reported := by
  ext n
  simp only [runs, ledgers, Option.toList_some, Option.toList_none, List.nil_append,
    List.singleton_append, List.mem_cons, exists_eq_or_imp, Set.mem_union, Set.mem_ofPred_eq]
  exact (or_congr_right or_comm).trans or_assoc.symm

end Books

end Reference

open Reference Books

/-- `n` numbers leave the window, from the one above `floor` on. -/
def leaveNumbers (succ : Int → Int) (passed : Finset Int) :
    Nat → Int → LossCounters → LossCounters
  | 0, _, c => c
  | n + 1, floor, c =>
    leaveNumbers succ passed n (floor + 1) (c.leave succ (decide (floor + 1 ∈ passed)))

variable {top u : Int} {l : Ledger} {cells : List Bool} {past : List Ledger} {c : LossCounters}
  {H : Nat}

theorem leaveNumbers_succ (succ : Int → Int) (passed : Finset Int) (n : Nat) (floor : Int)
    (c : LossCounters) :
    leaveNumbers succ passed (n + 1) floor c =
      (leaveNumbers succ passed n floor c).leave succ (decide (floor + n + 1 ∈ passed)) := by
  induction n generalizing floor c with
  | zero => simp only [leaveNumbers, Nat.cast_zero, add_zero]
  | succ n ih =>
    rw [leaveNumbers, ih, leaveNumbers,
      show floor + 1 + (n : Int) + 1 = floor + ((n + 1 : Nat) : Int) + 1 by omega]

section Shifts

variable (H : Nat) (hH : 1 ≤ H) (passed : Finset Int)

include hH

theorem shiftSeqHistory_fst (c : LossCounters) (b : Bool) (hlen : cells.length = H)
    (hshow : Window.Shows cells top passed) :
    (shiftSeqHistory H c cells b).1 = c.leave intSucc (decide (top - H + 1 ∈ passed)) := by
  have hcell : cells.getD ((H : Int) - 1).toNat false = decide (top - H + 1 ∈ passed) := by
    have hlast := hshow ((H : Int) - 1).toNat (by omega)
    rw [show top - ((((H : Int) - 1).toNat : Nat) : Int) = top - H + 1 by omega] at hlast
    rw [Bool.eq_iff_iff, hlast, decide_eq_true_iff]
    exact Finset.mem_coe
  rw [← hcell]
  rfl

theorem shiftZeros_fst (n : Nat) (top : Int) (c : LossCounters) (cells : List Bool)
    (hlen : cells.length = H) (hle : ∀ x ∈ passed, x ≤ top)
    (hshow : Window.Shows cells top passed) :
    (shiftZeros H n c cells).1 = leaveNumbers intSucc passed n (top - H) c ∧
      (shiftZeros H n c cells).2.length = H ∧
      Window.Shows (shiftZeros H n c cells).2 (top + n) passed := by
  induction n generalizing top c cells with
  | zero =>
    refine ⟨rfl, hlen, ?_⟩
    rwa [Nat.cast_zero, add_zero]
  | succ n ih =>
    have hne : cells ≠ [] := List.length_pos_iff.mp (by omega)
    -- one shift raises the top to a number that was not passed
    have hnext := Window.shows_slide_false cells top passed hne hle hshow
    obtain ⟨hfst, hlength, hshows⟩ := ih (top + 1)
      (shiftSeqHistory H c cells false).1 (shiftSeqHistory H c cells false).2
      (by rw [shiftSeqHistory_snd, Window.length_slide cells false hne, hlen])
      (fun x hx => by have := hle x hx; omega) hnext
    refine ⟨?_, hlength, ?_⟩
    · rw [shiftZeros, hfst, shiftSeqHistory_fst H hH passed c false hlen hshow,
        leaveNumbers, show top + 1 - (H : Int) = top - H + 1 by omega]
    · rwa [show top + 1 + (n : Int) = top + ((n + 1 : Nat) : Int) by omega] at hshows

theorem shiftAhead_fst {d : Int} (hd : 0 < d) (hlen : cells.length = H)
    (hle : ∀ x ∈ passed, x ≤ top) (hshow : Window.Shows cells top passed) :
    (shiftSeqHistory H (shiftZeros H (d - 1).toNat c cells).1
      (shiftZeros H (d - 1).toNat c cells).2 true).1 =
      leaveNumbers intSucc passed d.toNat (top - H) c := by
  obtain ⟨hfst, hlength, hshows⟩ :=
    shiftZeros_fst H hH passed (d - 1).toNat top c cells hlen hle hshow
  rw [shiftSeqHistory_fst H hH passed _ true hlength hshows, hfst,
    show d.toNat = (d - 1).toNat + 1 by omega, leaveNumbers_succ,
    show top + ((d - 1).toNat : Int) - H + 1 = top - H + ((d - 1).toNat : Int) + 1 by omega]

end Shifts

/-- The counters against the books. The older numbers that left without having been
passed are counted as losses. If there are none, the longest loss is the one of
the books, and as soon as the first number of the epoch has left the window, the
loss that is going on is that of the epoch. -/
structure Tallied (H : Nat) (b : Books) (c : LossCounters) : Prop where
  guard : c.skipLossAfterResetGuard = 0
  lost : c.lostPackets = b.lost H + b.older H
  longest : b.older H = 0 → IsGreatest (b.runs H) c.consecutiveLossMax
  running : b.older H = 0 → ∀ l ∈ b.current, l.first ≤ l.epoch.top - H →
    Runs.EndsAt (l.lost H) (l.epoch.top - H) c.consecutiveLoss

theorem tallied_new (H : Nat) : Tallied H ⟨none, []⟩ ⟨0, 0, 0, 0⟩ where
  guard := rfl
  lost := rfl
  longest _ := by
    refine ⟨Or.inl rfl, ?_⟩
    rintro n (rfl | ⟨l, hl, _⟩)
    · exact le_refl 0
    · exact absurd hl List.not_mem_nil
  running _ _ hl := nomatch hl

section Leave

variable {H : Nat} {l : Ledger} {past : List Ledger} {c : LossCounters}

/-- What was lost stays the same, and only the loss that is going on may be
another one. -/
theorem Tallied.same (h : Tallied H ⟨some l, past⟩ c) {l' : Ledger} (n : Int)
    (hlost : l'.lost H = l.lost H) (hold : l'.older H = l.older H)
    (hreported : l'.reported = l.reported)
    (hrunning : older H ⟨some l, past⟩ = 0 → l'.first ≤ l'.epoch.top - H →
      Runs.EndsAt (l.lost H) (l'.epoch.top - H) n) :
    Tallied H ⟨some l', past⟩ { c with consecutiveLoss := n } := by
  have holder : older H ⟨some l', past⟩ = older H ⟨some l, past⟩ := by
    rw [older_some, older_some, hold]
  refine ⟨h.guard, ?_, ?_, ?_⟩
  · rw [holder, lost_some, hlost]
    exact h.lost
  · rw [holder, runs_some, hlost, hreported, ← runs_some]
    exact h.longest
  · rw [holder]
    intro hzero l'' hl'' hfirst
    cases hl''
    rw [hlost]
    exact hrunning hzero hfirst

theorem tallied_leave_passed (h : Tallied H ⟨some l, past⟩ c)
    (hmem : l.epoch.top - H + 1 ∈ l.epoch.passed) :
    Tallied H ⟨some l.raise, past⟩ (c.leave (· + 1) true) := by
  obtain ⟨hsame, hold⟩ := raise_of_mem H l hmem
  refine h.same 0 hsame hold rfl fun _ _ => Runs.endsAt_zero _ _ fun hin => ?_
  have hfloor : l.raise.epoch.top - (H : Int) = l.epoch.top - H + 1 := by
    show l.epoch.top + 1 - (H : Int) = _
    omega
  rw [hfloor] at hin
  exact ((mem_unpassed _ _ _ _).mp hin).2 hmem

theorem leave_empty (hguard : c.skipLossAfterResetGuard = 0) :
    c.leave (· + 1) false =
      { c with
        lostPackets := c.lostPackets + 1
        consecutiveLoss := c.consecutiveLoss + 1
        consecutiveLossMax :=
          if c.consecutiveLoss + 1 > c.consecutiveLossMax then c.consecutiveLoss + 1
          else c.consecutiveLossMax } := by
  rw [LossCounters.leave, if_pos rfl, if_pos hguard]

/-- A lost number leaves. There is one more loss, and the one that is going on
is longer. -/
theorem tallied_leave_lost (h : Tallied H ⟨some l, past⟩ c) (hkept : l.WellKept H)
    (hmem : l.epoch.top - H + 1 ∉ l.epoch.passed) (hnew : l.first ≤ l.epoch.top - H) :
    Tallied H ⟨some l.raise, past⟩ (c.leave (· + 1) false) := by
  obtain ⟨hins, hcard, hold⟩ := raise_newer H l hmem hnew
  have holder : older H ⟨some l.raise, past⟩ = older H ⟨some l, past⟩ := by
    rw [older_some, older_some, hold]
  rw [leave_empty h.guard]
  refine ⟨h.guard, ?_, ?_, ?_⟩
  · have hlost := h.lost
    rw [lost_some] at hlost
    rw [holder, lost_some, hcard]
    show c.lostPackets + 1 = _
    omega
  · rw [holder, runs_some, hins]
    intro hzero
    have hrun := h.running hzero l rfl hnew
    have hgreat := h.longest hzero
    rw [runs_some] at hgreat
    show IsGreatest (_ ∪ Runs.lengths _ l.reported) _
    rw [Runs.lengths_insert (l.lost H) l.reported hkept.reported_le
      (unpassed_le _ _ _) hrun, ← Set.union_assoc]
    exact Runs.isGreatest_union _ _ _ (by have := hrun.nonneg; omega) hgreat
  · rw [holder]
    intro hzero l' hl' _
    cases hl'
    rw [hins, show l.raise.epoch.top - (H : Int) = l.epoch.top - H + 1 by
      show l.epoch.top + 1 - (H : Int) = _
      omega]
    exact Runs.endsAt_insert _ (h.running hzero l rfl hnew)

/-- An older number leaves that was not passed. It is counted as a loss, and from
then on there is nothing to be shown but the number of losses. -/
theorem tallied_leave_older (h : Tallied H ⟨some l, past⟩ c) (hkept : l.WellKept H)
    (hmem : l.epoch.top - H + 1 ∉ l.epoch.passed) (hold : l.epoch.top - H + 1 < l.first) :
    Tallied H ⟨some l.raise, past⟩ (c.leave (· + 1) false) := by
  obtain ⟨hsame, hcard⟩ := raise_older H l hmem hkept.first_le hold
  rw [leave_empty h.guard]
  refine ⟨h.guard, ?_, ?_, ?_⟩
  · have hlost := h.lost
    rw [lost_some, older_some] at hlost
    rw [lost_some, older_some, hsame, hcard]
    show c.lostPackets + 1 = _
    omega
  · rw [older_some, hcard]
    omega
  · rw [older_some, hcard]
    omega

theorem tallied_leave (hkept : l.WellKept H) (h : Tallied H ⟨some l, past⟩ c) :
    Tallied H ⟨some l.raise, past⟩
      (c.leave (· + 1) (decide (l.epoch.top - H + 1 ∈ l.epoch.passed))) := by
  by_cases hmem : l.epoch.top - H + 1 ∈ l.epoch.passed
  · rw [decide_eq_true hmem]
    exact tallied_leave_passed h hmem
  · rw [decide_eq_false hmem]
    by_cases hnew : l.first ≤ l.epoch.top - H
    · exact tallied_leave_lost h hkept hmem hnew
    · -- the first number itself was passed
      have hne : l.epoch.top - H + 1 ≠ l.first := fun heq => hmem (heq ▸ hkept.first_mem)
      exact tallied_leave_older h hkept hmem (by omega)

end Leave

theorem tallied_leaveNumbers (n : Nat) (l : Ledger) (c : LossCounters) (hkept : l.WellKept H)
    (h : Tallied H ⟨some l, past⟩ c) :
    Tallied H ⟨some { l with epoch := { l.epoch with top := l.epoch.top + n } }, past⟩
      (leaveNumbers (· + 1) l.epoch.passed n (l.epoch.top - H) c) := by
  induction n generalizing l c with
  | zero =>
    rw [Nat.cast_zero, add_zero]
    exact h
  | succ n ih =>
    have hnext := ih l.raise _ (raise_wellKept H l hkept) (tallied_leave hkept h)
    simp only [Ledger.raise] at hnext
    rwa [show l.epoch.top + 1 + (n : Int) = l.epoch.top + ((n + 1 : Nat) : Int) by omega,
      show l.epoch.top + 1 - (H : Int) = l.epoch.top - H + 1 by omega] at hnext

theorem tallied_insert (hu : l.epoch.top - H < u) (h : Tallied H ⟨some l, past⟩ c) :
    Tallied H
      ⟨some { l with epoch := { l.epoch with passed := insert u l.epoch.passed } }, past⟩ c :=
  h.same c.consecutiveLoss (lost_insert H l u hu) (older_insert H l u hu) rfl
    fun hzero hfirst => h.running hzero l rfl hfirst

theorem tallied_first (hH : 1 ≤ H) (seq : Nat) (h : Tallied H ⟨none, past⟩ c) :
    Tallied H ⟨some ⟨seq, ⟨seq, {(seq : Int)}⟩, seq - H⟩, past⟩ c := by
  have hlost : Ledger.lost H ⟨seq, ⟨seq, {(seq : Int)}⟩, seq - H⟩ = ∅ :=
    unpassed_eq_empty _ _ _ (by show (seq : Int) - H ≤ seq; omega)
  have hold : Ledger.older H ⟨seq, ⟨seq, {(seq : Int)}⟩, seq - H⟩ = ∅ :=
    unpassed_eq_empty _ _ _ (min_le_right _ _)
  obtain ⟨hguard, hcount, hlongest, _⟩ := h
  refine ⟨hguard, ?_, ?_, ?_⟩
  · rw [lost_some, older_some, hlost, hold, Finset.card_empty, zero_add, zero_add]
    exact hcount
  · rw [older_some, runs_some, hlost, hold, Finset.card_empty, zero_add,
      Runs.lengths_eq_empty ∅ _ (fun x hx => absurd hx (Finset.notMem_empty x)), Set.union_empty]
    exact hlongest
  · intro _ l hl hfirst
    cases hl
    have : (seq : Int) ≤ seq - H := hfirst
    omega

theorem tallied_reset (h : Tallied H b c) :
    Tallied H ⟨none, b.ledgers⟩ c where
  guard := h.guard
  lost := h.lost
  longest := h.longest
  running _ _ hl := nomatch hl

theorem ledgers_clear (H : Nat) (b : Books) :
    ledgers ⟨b.current.map (Ledger.clear H), b.past.map (Ledger.clear H)⟩ =
      b.ledgers.map (Ledger.clear H) := by
  cases hcurrent : b.current with
  | none => simp only [ledgers, hcurrent, Option.map_none, Option.toList_none,
      List.nil_append]
  | some l => simp [ledgers, hcurrent]

/-- The longest loss is cleared: what was lost so far is reported, and the loss
that is going on is not forgotten. -/
theorem tallied_clear (h : Tallied H b c) :
    Tallied H ⟨b.current.map (Ledger.clear H), b.past.map (Ledger.clear H)⟩
      { c with consecutiveLossMax := 0 } := by
  have hlost : lost H ⟨b.current.map (Ledger.clear H), b.past.map (Ledger.clear H)⟩ =
      b.lost H := by
    rw [lost, ledgers_clear, List.map_map]
    rfl
  have holder : older H ⟨b.current.map (Ledger.clear H), b.past.map (Ledger.clear H)⟩ =
      b.older H := by
    rw [older, ledgers_clear, List.map_map]
    rfl
  refine ⟨h.guard, ?_, ?_, ?_⟩
  · rw [hlost, holder]
    exact h.lost
  · -- no run of losses ends above the numbers that have left
    intro _
    refine ⟨Or.inl rfl, ?_⟩
    rintro n (rfl | ⟨l, hl, hrun⟩)
    · exact le_refl 0
    · rw [ledgers_clear] at hl
      obtain ⟨l, _, rfl⟩ := List.mem_map.mp hl
      rw [Runs.lengths_eq_empty (Ledger.lost H (l.clear H)) (l.clear H).reported
        (unpassed_le _ _ _)] at hrun
      exact absurd hrun (Set.notMem_empty n)
  · rw [holder]
    intro hzero l hl hfirst
    obtain ⟨l, hcurrent, rfl⟩ := Option.mem_map.mp hl
    exact h.running hzero l hcurrent hfirst

/-- The `int`s of the code, `d`, against the numbers they are for, `c`. The number of
losses is shown up to its residue. As long as it fits an `int` all counters are right,
since none is above it. -/
structure ShownAs (c d : LossCounters) : Prop where
  guard : d.skipLossAfterResetGuard = c.skipLossAfterResetGuard
  lost : d.lostPackets = Int.bmod c.lostPackets (2 ^ 32)
  nonneg : 0 ≤ c.consecutiveLoss
  consecutive_le : c.consecutiveLoss ≤ c.lostPackets
  fits : c.lostPackets < 2147483648 → d = c

theorem shownAs_leave {d : LossCounters} (h : ShownAs c d) (cell : Bool) :
    ShownAs (c.leave (· + 1) cell) (d.leave intSucc cell) := by
  obtain ⟨hguard, hlost, hnonneg, hle, hfits⟩ := h
  cases cell with
  | true =>
    refine ⟨hguard, hlost, le_refl 0, ?_, fun hsmall => ?_⟩
    · exact le_trans hnonneg hle
    · rw [hfits hsmall]
      rfl
  | false =>
    by_cases hzero : c.skipLossAfterResetGuard = 0
    · have hzero' : d.skipLossAfterResetGuard = 0 := hguard.trans hzero
      simp only [LossCounters.leave, if_true, if_pos hzero, if_pos hzero']
      refine ⟨hguard, ?_, ?_, ?_, fun hsmall => ?_⟩
      · rw [hlost, intSucc_bmod]
      · show 0 ≤ c.consecutiveLoss + 1
        omega
      · show c.consecutiveLoss + 1 ≤ c.lostPackets + 1
        omega
      · -- both counters that are raised are below the bound
        have hsmall : c.lostPackets + 1 < 2147483648 := hsmall
        rw [hfits (by omega), intSucc_eq_add (by omega) (by omega),
          intSucc_eq_add (by omega) (by omega)]
    · have hzero' : d.skipLossAfterResetGuard ≠ 0 := hguard ▸ hzero
      simp only [LossCounters.leave, if_true, if_neg hzero, if_neg hzero']
      refine ⟨?_, hlost, hnonneg, hle, fun hsmall => ?_⟩
      · rw [hguard]
      · rw [hfits hsmall]

theorem shownAs_leaveNumbers (passed : Finset Int) (n : Nat) (floor : Int) (c d : LossCounters)
    (h : ShownAs c d) :
    ShownAs (leaveNumbers (· + 1) passed n floor c) (leaveNumbers intSucc passed n floor d) := by
  induction n generalizing floor c d with
  | zero => exact h
  | succ n ih => exact ih _ _ _ (shownAs_leave h _)

/-- The counters of the code against the books, through the numbers they are for. -/
def TalliedInts (H : Nat) (b : Books) (d : LossCounters) : Prop :=
  ∃ c, Tallied H b c ∧ ShownAs c d

theorem packet_current_map (H seq : Nat) (b : Books) :
    (b.packet H seq).current.map Ledger.epoch =
      (Reference.packet H seq (b.current.map Ledger.epoch)).1 := by
  rw [Books.packet, Option.map_map]
  cases b.current with
  | none | some l => exact Option.map_id'

theorem packet_some {seq : Nat} (past : List Ledger) {e : Epoch} {v : Verdict}
    (h : Reference.packet H seq (some l.epoch) = (some e, v)) :
    Books.packet H seq ⟨some l, past⟩ = ⟨some { l with epoch := e }, past⟩ := by
  simp [Books.packet, h]

/-- A packet above the top: as many numbers leave the window as the top rises,
and the packet is passed. -/
theorem tallied_ahead (hH : 1 ≤ H) (hahead : 0 < u - l.epoch.top) (hkept : l.WellKept H)
    (h : Tallied H ⟨some l, past⟩ c) :
    Tallied H ⟨some { l with epoch := ⟨u, insert u l.epoch.passed⟩ }, past⟩
      (leaveNumbers (· + 1) l.epoch.passed (u - l.epoch.top).toNat (l.epoch.top - H) c) := by
  have hcount := tallied_leaveNumbers (u - l.epoch.top).toNat l c hkept h
  rw [show l.epoch.top + ((u - l.epoch.top).toNat : Int) = u by omega] at hcount
  exact tallied_insert (by show u - (H : Int) < u; omega) hcount

theorem wellKept_packet (u : Int) (htop : l.epoch.top ≤ top) (h : l.WellKept H) :
    Ledger.WellKept H { l with epoch := ⟨top, insert u l.epoch.passed⟩ } := by
  obtain ⟨hmem, hle, hreported⟩ := h
  refine ⟨Finset.mem_insert_of_mem hmem, ?_, ?_⟩
  · show l.first ≤ top
    omega
  · show l.reported ≤ top - H
    omega

theorem tallied_packet (hH : 1 ≤ H) (seq : Nat) (hlen : r.historyLength = H)
    (hspace : Agrees H (r.space false) (b.current.map Ledger.epoch))
    (hkept : ∀ l ∈ b.current, l.WellKept H) (h : TalliedInts H b r.loss) :
    TalliedInts H (b.packet H seq) (recover r seq false).2.loss ∧
      ∀ l ∈ (b.packet H seq).current, l.WellKept H := by
  obtain ⟨c, h, hshown⟩ := h
  rcases b with ⟨_ | l, past⟩
  · -- the first packet of an epoch
    obtain ⟨htake, _⟩ := hspace
    rw [recover_loss_of_not_ahead (Or.inl htake)]
    refine ⟨⟨c, tallied_first hH seq h, hshown⟩, ?_⟩
    intro l hl
    cases hl
    exact ⟨Finset.mem_singleton_self _, le_refl _, le_refl _⟩
  obtain ⟨htake, hlength, hrecv, hshow, hle⟩ := hspace
  have hdelta : calcDelta seq (r.space false).recvSeq =
      Reference.unwrap l.epoch.top seq - l.epoch.top := by
    rw [hrecv, calcDelta_eq_unwrap_sub]
  generalize hu : Reference.unwrap l.epoch.top seq = u at hdelta
  by_cases hin : -(H : Int) < u - l.epoch.top ∧ u - l.epoch.top ≤ H
  · rw [← hu] at hin
    by_cases hmem : u ∈ l.epoch.passed
    · -- a repetition, which is not above the top
      have := hle u hmem
      rw [packet_some past (packet_seen hin (by rwa [hu])),
        recover_loss_of_not_ahead (by omega)]
      exact ⟨⟨c, h, hshown⟩, hkept⟩
    · rw [packet_some past (packet_new hin (by rwa [hu])), hu]
      rw [hu] at hin
      refine ⟨?_, fun l' hl' => ?_⟩
      · by_cases hahead : 0 < u - l.epoch.top
        · rw [recover_loss_ahead htake (by omega) (by omega), hdelta, hlen,
            shiftAhead_fst H hH l.epoch.passed hahead hlength hle hshow,
            max_eq_right (by omega)]
          exact ⟨_, tallied_ahead hH hahead (hkept l rfl) h, shownAs_leaveNumbers _ _ _ _ _ hshown⟩
        · -- a late packet, the top stays
          rw [max_eq_left (by omega), recover_loss_of_not_ahead (by omega)]
          exact ⟨c, tallied_insert (by omega) h, hshown⟩
      · cases hl'
        exact wellKept_packet u (le_max_left _ _) (hkept l rfl)
  · -- outside the window
    rw [packet_some past (packet_outside (by rw [hu]; omega)),
      recover_loss_of_not_ahead (by omega)]
    exact ⟨⟨c, h, hshown⟩, hkept⟩

/-- The recovery and the books. -/
structure KeepsBooks (H : Nat) (r : SequenceRecovery) (b : Books) : Prop where
  algorithm : r.algorithm = .rcvyVector
  historyLength : r.historyLength = H
  space : Agrees H r.regular (b.current.map Ledger.epoch)
  wellKept : ∀ l ∈ b.current, l.WellKept H
  tallied : TalliedInts H b r.loss

theorem newSeqRec_keepsBooks (hH : H < 2147483648) (useReset useInit : Bool) (resetMsec : Nat) :
    KeepsBooks H (newSeqRec .rcvyVector useReset useInit H resetMsec) ⟨none, []⟩ where
  algorithm := rfl
  historyLength := newSeqRec_historyLength _ _ _ _ hH
  space := ⟨rfl, rfl⟩
  wellKept _ hl := nomatch hl
  tallied := ⟨_, tallied_new H, ⟨rfl, rfl, le_refl 0, le_refl 0, fun _ => rfl⟩⟩

theorem packet_keepsBooks (hH : 1 ≤ H) (seq : Nat) (h : KeepsBooks H r b) :
    KeepsBooks H (seqRecovery r seq).2 (b.packet H (seq % 65536)) := by
  have hrec : seqRecovery r seq = recover r (seq % 65536) false := by
    rw [seqRecovery, h.algorithm, vectorSeqRecovery]
  obtain ⟨hspace, _, _⟩ := recoverCase_agrees hH (Nat.mod_lt _ (by decide))
    h.historyLength h.space (recover_case r (seq % 65536) false)
  obtain ⟨htallied, hkept⟩ := tallied_packet hH (seq % 65536) h.historyLength h.space
    h.wellKept h.tallied
  have hframe := (recover_frame r (seq % 65536) false).1
  rw [hrec]
  refine ⟨?_, ?_, ?_, hkept, htallied⟩
  · rw [hframe.algorithm, h.algorithm]
  · rw [hframe.historyLength, h.historyLength]
  · rw [packet_current_map]
    exact hspace

theorem lossStep_keepsBooks (hH : 1 ≤ H) (ev : LossEvent) (h : KeepsBooks H r b) :
    KeepsBooks H (lossStep r ev).1 (b.step H ev).1 := by
  obtain ⟨c, htallied, hshown⟩ := h.tallied
  cases ev with
  | recovery ev =>
    cases ev with
    | packet seq => exact packet_keepsBooks hH seq h
    | reset =>
      have hrec : seqRecoveryReset r = vectorSeqRecoveryReset { r with
          seqRecoveryResets := intSucc r.seqRecoveryResets
          regular := { r.regular with takeAny := true } } := by
        simp only [seqRecoveryReset, h.algorithm]
      show KeepsBooks H (seqRecoveryReset r) ⟨none, b.ledgers⟩
      rw [hrec]
      refine ⟨h.algorithm, h.historyLength, ⟨rfl, ?_⟩,
        fun l hl => absurd hl (Option.not_mem_none l), ⟨c, tallied_reset htallied, hshown⟩⟩
      show List.replicate r.historyLength.toNat false = List.replicate H false
      rw [h.historyLength, Int.toNat_natCast]
  | cleared =>
    have hcleared : ShownAs { c with consecutiveLossMax := 0 }
        { r.loss with consecutiveLossMax := 0 } :=
      ⟨hshown.guard, hshown.lost, hshown.nonneg, hshown.consecutive_le, fun hsmall => by
        rw [hshown.fits hsmall]⟩
    refine ⟨h.algorithm, h.historyLength, ?_, ?_, ⟨_, tallied_clear htallied, hcleared⟩⟩
    · show Agrees H r.regular ((b.current.map (Ledger.clear H)).map Ledger.epoch)
      rw [Option.map_map]
      exact h.space
    · intro l hl
      obtain ⟨l, hcurrent, rfl⟩ := Option.mem_map.mp hl
      have hkept := h.wellKept l hcurrent
      exact ⟨hkept.first_mem, hkept.first_le, le_refl _⟩

theorem older_eq_zero_iff (H : Nat) (b : Books) :
    b.older H = 0 ↔ ∀ l ∈ b.ledgers, l.older H = ∅ := by
  simp [older, List.sum_eq_zero_iff_forall_eq_nat]

/-- The counters have the older numbers in them, and nothing else is wrong with
them. -/
theorem Tallied.right_iff (h : Tallied H b c) :
    (c.lostPackets = b.lost H ∧ IsGreatest (b.runs H) c.consecutiveLossMax) ↔
      ∀ l ∈ b.ledgers, l.older H = ∅ := by
  rw [← older_eq_zero_iff]
  constructor
  · rintro ⟨hlost, _⟩
    have := h.lost
    omega
  · intro hzero
    refine ⟨?_, h.longest hzero⟩
    rw [h.lost, hzero, Nat.cast_zero, add_zero]

theorem final_keepsBooks (hlow : 1 ≤ H) (hhigh : H < 2147483648) (useReset useInit : Bool)
    (resetMsec : Nat) (evs : List LossEvent) :
    KeepsBooks H (final lossStep (newSeqRec .rcvyVector useReset useInit H resetMsec) evs)
      (final (Books.step H) ⟨none, []⟩ evs) :=
  (run_simulation (KeepsBooks H) (fun _ _ => True)
    (fun _ _ ev h => ⟨lossStep_keepsBooks hlow ev h, trivial⟩)
    (newSeqRec_keepsBooks hhigh useReset useInit resetMsec) evs).1

/-- The losses are right: as many as in the books, and the longest one too. -/
def LossesRight (H : Nat) (b : Books) (d : LossCounters) : Prop :=
  d.lostPackets = b.lost H ∧ IsGreatest (b.runs H) d.consecutiveLossMax

/-- As long as everything that is counted fits an `int`. -/
theorem TalliedInts.right_iff {d : LossCounters} (h : TalliedInts H b d)
    (hfits : b.lost H + b.older H < 2147483648) :
    LossesRight H b d ↔ ∀ l ∈ b.ledgers, l.older H = ∅ := by
  obtain ⟨c, htallied, hshown⟩ := h
  rw [hshown.fits (by rw [htallied.lost]; omega)]
  exact htallied.right_iff

/-- If nothing is counted that should not be. What an `int` shows is below its bound. -/
theorem TalliedInts.right_iff_fits {d : LossCounters} (h : TalliedInts H b d)
    (hold : ∀ l ∈ b.ledgers, l.older H = ∅) : LossesRight H b d ↔ b.lost H < 2147483648 := by
  have hzero := (older_eq_zero_iff H b).mpr hold
  constructor
  · rintro ⟨hlost, -⟩
    obtain ⟨c, -, hshown⟩ := h
    have := Int.bmod_lt (x := c.lostPackets) (m := 2 ^ 32) (by decide)
    rw [← hshown.lost, hlost] at this
    omega
  · intro hfits
    exact (h.right_iff (by omega)).mpr hold

/-- The number of lost packets and the longest loss. As long as all that is counted fits
an `int`, they are right exactly if no number older than the first of its epoch left the
window without having been passed. Where there is no such number, they are right exactly
as long as the losses fit an `int`. -/
theorem vectorRecovery_losses_iff (H : Nat) (hlow : 1 ≤ H) (hhigh : H < 2147483648)
    (useReset useInit : Bool) (resetMsec : Nat) (evs : List LossEvent) :
    ((final (Books.step H) ⟨none, []⟩ evs).lost H +
          (final (Books.step H) ⟨none, []⟩ evs).older H < 2147483648 →
        (LossesRight H (final (Books.step H) ⟨none, []⟩ evs)
            (final lossStep (newSeqRec .rcvyVector useReset useInit H resetMsec) evs).loss ↔
          ∀ l ∈ (final (Books.step H) ⟨none, []⟩ evs).ledgers, l.older H = ∅)) ∧
      ((∀ l ∈ (final (Books.step H) ⟨none, []⟩ evs).ledgers, l.older H = ∅) →
        (LossesRight H (final (Books.step H) ⟨none, []⟩ evs)
            (final lossStep (newSeqRec .rcvyVector useReset useInit H resetMsec) evs).loss ↔
          (final (Books.step H) ⟨none, []⟩ evs).lost H < 2147483648)) :=
  have htallied := (final_keepsBooks hlow hhigh useReset useInit resetMsec evs).tallied
  ⟨htallied.right_iff, htallied.right_iff_fits⟩

/-- Late packets fill the older cells, and then 11 and 12 are lost. -/
theorem vectorRecovery_losses_late :
    (1 ≤ 3 ∧ 3 < 2147483648) ∧
      (final lossStep (newSeqRec .rcvyVector false false 3 2000)
        [.recovery (.packet 10), .recovery (.packet 9), .recovery (.packet 8),
          .recovery (.packet 13), .recovery (.packet 16)]).loss.lostPackets = 2 := by
  have hright := ((vectorRecovery_losses_iff 3 (by decide) (by decide) false false 2000
    [.recovery (.packet 10), .recovery (.packet 9), .recovery (.packet 8),
      .recovery (.packet 13), .recovery (.packet 16)]).1 (by decide)).mpr (by decide)
  exact ⟨by decide, hright.1.trans (by decide)⟩

/-- Two packets in order, with the default window of two cells. Nothing is lost
in the books, and the counter shows a loss. -/
theorem vectorRecovery_losses_inOrder_two :
    (final (Books.step 2) ⟨none, []⟩
        [.recovery (.packet 0), .recovery (.packet 1)]).lost 2 = 0 ∧
      (final lossStep (newSeqRec .rcvyVector false false 2 2000)
        [.recovery (.packet 0), .recovery (.packet 1)]).loss.lostPackets = 1 := by
  decide

end Dnt
