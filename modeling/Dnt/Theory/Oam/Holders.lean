import Dnt.Core.OamReference

/-!
# Holding a Maintenance Point

The count of a point is the number of threads that hold it. This breaks when a count
comes back from zero: the thread that has lowered it is going to remove the point, and a
thread that looks it up in the meantime holds a point that is freed next.

## Main definitions

* `keeps`, `removes`: A thread holds a point, or is about to remove it.
* `MpInv`: Counts are counts of threads, and at most one thread removes a point.
* `FromHeld`: No thread raises a count from zero.

## Theorems

* `mpRun_safe`: If no count is ever raised from zero, no point is freed twice, or while it
  is held.
-/

namespace Dnt

open Function Crew

open Mealy

variable {i : Nat} {name : String}

/-- The thread has raised the count of a point and not lowered it again. -/
def keeps (name : String) : MpUser → Bool
  | .findUnlock name' found => found && name' == name
  | .holds name' => name' == name
  | _ => false

/-- The thread has lowered the count of a point to zero and is about to remove it. -/
def removes (name : String) : MpUser → Bool
  | .unrefLock name' refcount => name' == name && refcount == 0
  | .remove name' refcount => name' == name && refcount == 0
  | _ => false

def MpUser.Waiting : MpUser → Prop
  | .findLock _ => True
  | .holds _ => True
  | _ => False

/-- The beginning of a run: the counts are right, nothing has been freed, and no thread
is in the middle of a call. -/
structure MpBegin (s : Crew MpTable MpUser) : Prop where
  waiting : ∀ c ∈ s.calls, c.Waiting
  counts : ∀ name, s.shared.referenceCount name = s.count (keeps name)
  freed : ∀ name, s.shared.freed name = 0

def raisesFromZero (s : MpTable) : MpUser → Bool
  | .increment name => s.referenceCount name == 0
  | _ => false

/-- No thread raises a count from zero. -/
def FromHeld (s : Crew MpTable MpUser) : MpEvent → Prop
  | .find _ => True
  | .move i => ∀ c ∈ s.calls[i]?, raisesFromZero s.shared c = false

instance FromHeld.decidable (s : Crew MpTable MpUser) : ∀ e, Decidable (FromHeld s e)
  | .find _ => inferInstanceAs (Decidable True)
  | .move i => inferInstanceAs (Decidable (∀ c ∈ s.calls[i]?, raisesFromZero s.shared c = false))

/-- No point has been freed twice, and a point that was freed is not held by anybody. -/
structure MpSafe (s : Crew MpTable MpUser) : Prop where
  once : ∀ name, s.shared.freed name ≤ 1
  unheld : ∀ name, 0 < s.shared.freed name → ∀ c ∈ s.calls, c ≠ .holds name

/-- Counts are counts of threads, and of those who remove a point there is at most one,
who comes after all that held it. -/
structure MpInv (s : Crew MpTable MpUser) : Prop where
  counts : ∀ name, s.shared.referenceCount name = s.count (keeps name)
  last : ∀ name, s.count (removes name) + s.shared.freed name ≤ 1
  gone : ∀ name, 0 < s.count (removes name) + s.shared.freed name → s.count (keeps name) = 0

variable {s : Crew MpTable MpUser} {shared : MpTable} {c : MpUser}

theorem MpBegin.inv (h : MpBegin s) : MpInv s := by
  have hremoves (name : String) : s.count (removes name) = 0 := by
    refine count_eq_zero_iff.mpr fun c hc => ?_
    have hwait := h.waiting c hc
    cases c with
    | findLock _ | holds _ => rfl
    | _ => exact absurd hwait id
  refine ⟨h.counts, fun name => ?_, fun name hpos => ?_⟩
  · rw [hremoves, h.freed]
    exact Nat.zero_le 1
  · rw [hremoves, h.freed] at hpos
    exact absurd hpos (Nat.lt_irrefl 0)

theorem MpInv.safe (h : MpInv s) : MpSafe s := by
  refine ⟨fun name => ?_, fun name hfreed c hc heq => ?_⟩
  · have := h.last name
    omega
  · have hzero := count_eq_zero_iff.mp (h.gone name (by omega)) c hc
    rw [heq] at hzero
    simp [keeps] at hzero

/-! ## One step -/

section

variable {s : Crew MpTable MpUser}

theorem MpInv.frame (h : MpInv s) {c' : MpUser} (hc : s.calls[i]? = some c)
    (hcount : shared.referenceCount = s.shared.referenceCount)
    (hfreed : shared.freed = s.shared.freed) (hkeeps : ∀ name, keeps name c' = keeps name c)
    (hremoves : ∀ name, removes name c' = removes name c) : MpInv ⟨shared, s.calls.set i c'⟩ := by
  have hk (name : String) :
      count ⟨shared, s.calls.set i c'⟩ (keeps name) = s.count (keeps name) := by
    have := count_move shared c' (keeps name) hc
    rw [hkeeps] at this
    omega
  have hr (name : String) :
      count ⟨shared, s.calls.set i c'⟩ (removes name) = s.count (removes name) := by
    have := count_move shared c' (removes name) hc
    rw [hremoves] at this
    omega
  refine ⟨fun name => ?_, fun name => ?_, fun name => ?_⟩
  · rw [hk, hcount]
    exact h.counts name
  · rw [hr, hfreed]
    exact h.last name
  · rw [hr, hk, hfreed]
    exact h.gone name

/-- Raising a count from above zero: whoever was to remove the point is not there. -/
theorem MpInv.increment (h : MpInv s) (hc : s.calls[i]? = some (.increment name))
    (hpos : s.shared.referenceCount name ≠ 0)
    (hcount : shared.referenceCount = update s.shared.referenceCount name
      (s.shared.referenceCount name + 1)) (hfreed : shared.freed = s.shared.freed) :
    MpInv ⟨shared, s.calls.set i (.findUnlock name true)⟩ := by
  have hk (name' : String) := count_move shared (.findUnlock name true) (keeps name') hc
  have hr (name' : String) := count_move shared (.findUnlock name true) (removes name') hc
  simp only [keeps, removes, Bool.true_and, Bool.toNat_false, Nat.add_zero] at hk hr
  have hheld : s.count (removes name) + s.shared.freed name = 0 := by
    by_contra hne
    have hzero := h.gone name (Nat.pos_of_ne_zero hne)
    have hcounts := h.counts name
    omega
  refine ⟨fun name' => ?_, fun name' => ?_, fun name' hgone => ?_⟩
  · rw [hcount, hk]
    by_cases hname : name = name'
    · subst hname
      simp [h.counts name]
    · rw [update_of_ne (Ne.symm hname), h.counts name', beq_false_of_ne hname]
      rfl
  · rw [hr, hfreed]
    exact h.last name'
  · rw [hr, hfreed] at hgone
    by_cases hname : name = name'
    · subst hname
      omega
    · rw [hk, h.gone name' hgone, beq_false_of_ne hname]
      rfl

/-- Lowering a count: the thread that takes it to zero is the last that held the
point. -/
theorem MpInv.decrement (h : MpInv s) (hc : s.calls[i]? = some (.holds name))
    (hcount : shared.referenceCount = update s.shared.referenceCount name
      (s.shared.referenceCount name - 1)) (hfreed : shared.freed = s.shared.freed) :
    MpInv ⟨shared, s.calls.set i (.unrefLock name (s.shared.referenceCount name - 1))⟩ := by
  have hk (name' : String) := count_move shared
    (.unrefLock name (s.shared.referenceCount name - 1)) (keeps name') hc
  have hr (name' : String) := count_move shared
    (.unrefLock name (s.shared.referenceCount name - 1)) (removes name') hc
  simp only [keeps, removes, Bool.toNat_false, Nat.add_zero] at hk hr
  have hkeeps : 0 < s.count (keeps name) := count_pos hc (by simp [keeps])
  have hheld : s.count (removes name) + s.shared.freed name = 0 := by
    by_contra hne
    have := h.gone name (Nat.pos_of_ne_zero hne)
    omega
  have hcounts := h.counts name
  refine ⟨fun name' => ?_, fun name' => ?_, fun name' hgone => ?_⟩
  · have hnow := hk name'
    rw [hcount]
    by_cases hname : name = name'
    · subst hname
      simp only [beq_self_eq_true, Bool.toNat_true] at hnow
      rw [update_self]
      omega
    · simp only [beq_false_of_ne hname, Bool.toNat_false, Nat.add_zero] at hnow
      rw [update_of_ne (Ne.symm hname), h.counts name', hnow]
  · have hnow := hr name'
    have hlast := h.last name'
    rw [hfreed]
    by_cases hname : name = name'
    · subst hname
      have := Bool.toNat_le (name == name && s.shared.referenceCount name - 1 == 0)
      omega
    · simp only [beq_false_of_ne hname, Bool.false_and, Bool.toNat_false, Nat.add_zero] at hnow
      omega
  · have hnow := hk name'
    have hrnow := hr name'
    rw [hfreed] at hgone
    by_cases hname : name = name'
    · subst hname
      simp only [beq_self_eq_true, Bool.toNat_true, Bool.true_and] at hnow hrnow
      -- somebody removes the point now, so the count has become zero
      have hzero : s.shared.referenceCount name - 1 = 0 := by grind
      omega
    · simp only [beq_false_of_ne hname, Bool.false_and, Bool.toNat_false,
        Nat.add_zero] at hnow hrnow
      rw [hnow]
      exact h.gone name' (by omega)

theorem MpInv.remove (h : MpInv s) (hc : s.calls[i]? = some (.remove name 0))
    (hcount : shared.referenceCount = s.shared.referenceCount)
    (hfreed : shared.freed name ≤ s.shared.freed name + 1)
    (hothers : ∀ name', name' ≠ name → shared.freed name' = s.shared.freed name') :
    MpInv ⟨shared, s.calls.set i .checkEmpty⟩ := by
  have hk (name' : String) := count_move shared .checkEmpty (keeps name') hc
  have hr (name' : String) := count_move shared .checkEmpty (removes name') hc
  simp only [keeps, removes, beq_self_eq_true, Bool.and_true, Bool.toNat_false,
    Nat.add_zero] at hk hr
  have hremoves : 0 < s.count (removes name) := count_pos hc (by simp [removes])
  refine ⟨fun name' => ?_, fun name' => ?_, fun name' hgone => ?_⟩
  · rw [hk, hcount]
    exact h.counts name'
  · have hnow := hr name'
    have hlast := h.last name'
    by_cases hname : name = name'
    · subst hname
      simp only [beq_self_eq_true, Bool.toNat_true] at hnow ⊢
      omega
    · rw [hothers name' (Ne.symm hname)]
      omega
  · rw [hk]
    have hnow := hr name'
    refine h.gone name' ?_
    by_cases hname : name = name'
    · subst hname
      omega
    · rw [hothers name' (Ne.symm hname)] at hgone
      omega

theorem mpInv_find (h : MpInv s) (name : String) :
    MpInv ⟨s.shared, s.calls ++ [.findLock name]⟩ := by
  have hk (name' : String) := count_start (s := s) s.shared (.findLock name) (keeps name')
  have hr (name' : String) := count_start (s := s) s.shared (.findLock name) (removes name')
  simp only [keeps, removes, Bool.toNat_false, Nat.add_zero] at hk hr
  refine ⟨fun name' => ?_, fun name' => ?_, fun name' => ?_⟩
  · rw [hk]
    exact h.counts name'
  · rw [hr]
    exact h.last name'
  · rw [hr, hk]
    exact h.gone name'

theorem mpInv_move (h : MpInv s) (x : Unit) (hc : s.calls[i]? = some c)
    (hheld : FromHeld s (.move i)) :
    MpInv ⟨(mpMove s.shared c x).1, s.calls.set i (mpMove s.shared c x).2⟩ := by
  unfold mpMove
  by_cases hcrash : s.shared.crashed = true
  · rw [if_pos hcrash]
    exact h.frame hc rfl rfl (fun _ => rfl) fun _ => rfl
  rw [if_neg hcrash]
  cases c with
  | findLock name =>
    simp only
    split_ifs <;> exact h.frame hc rfl rfl (fun _ => rfl) fun _ => rfl
  | lookUp name =>
    simp only
    split
    · exact h.frame hc rfl rfl (fun _ => rfl) fun _ => rfl
    · split_ifs <;> exact h.frame hc rfl rfl (fun _ => rfl) fun _ => rfl
  | increment name => exact h.increment hc (ne_of_beq_false (hheld _ hc)) rfl rfl
  | findUnlock name found => cases found <;> exact h.frame hc rfl rfl (fun _ => rfl) fun _ => rfl
  | holds name => exact h.decrement hc rfl rfl
  | unrefLock name refcount =>
    simp only
    split_ifs <;> exact h.frame hc rfl rfl (fun _ => rfl) fun _ => rfl
  | remove name refcount =>
    simp only
    by_cases hzero : refcount = 0
    · subst hzero
      rw [if_pos rfl]
      split
      · exact h.frame hc rfl rfl (fun _ => rfl) fun _ => rfl
      · next names hnames =>
        unfold MpTable.hashRemove
        split_ifs
        · refine h.remove hc rfl ?_ fun name' hname => ?_
          · simp only [update_self, Nat.le_refl]
          · simp only [update_of_ne hname]
        · exact h.remove hc rfl (Nat.le_succ _) fun _ _ => rfl
    · rw [if_neg hzero]
      refine h.frame hc rfl rfl (fun _ => rfl) fun name' => ?_
      simp [removes, beq_false_of_ne hzero]
  | checkEmpty =>
    simp only
    split <;> exact h.frame hc rfl rfl (fun _ => rfl) fun _ => rfl
  | unrefUnlock => exact h.frame hc rfl rfl (fun _ => rfl) fun _ => rfl
  | done => exact h.frame hc rfl rfl (fun _ => rfl) fun _ => rfl

end

/-! ## Runs -/

/-- As long as no count is raised from zero, no point is freed twice, or while it is
held. -/
theorem mpRun_safe (s : Crew MpTable MpUser) (hs : MpBegin s) (es : List MpEvent)
    (hheld : EveryStep mpStep FromHeld s es) : MpSafe (final mpStep s es) := by
  refine (final_invariant_of_everyStep MpInv FromHeld (fun s e h he => ?_) hs.inv es
    hheld).safe
  cases e with
  | find name => exact mpInv_find h name
  | move i =>
    cases hc : s.calls[i]? with
    | none =>
      simp only [mpStep]
      rwa [Crew.step_move_none () hc]
    | some c =>
      simp only [mpStep]
      rw [Crew.step_move () hc]
      exact mpInv_move h () hc he

def onePoint : Crew MpTable MpUser :=
  ⟨⟨false, some ["mp"], fun name => if name = "mp" then 1 else 0, fun _ => 0, false⟩,
   [.holds "mp"]⟩

theorem onePoint_begin : MpBegin onePoint := by
  refine ⟨?_, fun name => ?_, fun name => rfl⟩
  · simp [onePoint, MpUser.Waiting]
  · by_cases hname : name = "mp"
    · subst hname
      rfl
    · simp [onePoint, count, keeps, hname, Ne.symm hname]

/-- The point is found while the pipeline holds it, the pipeline gives it back, and
then the finder, who removes it. -/
theorem mpRun_safe_found :
    let es := [.find "mp", .move 1, .move 1, .move 1, .move 1, .move 0, .move 0, .move 0, .move 0,
      .move 0, .move 1, .move 1, .move 1, .move 1, .move 1]
    MpSafe (final mpStep onePoint es) ∧
      (final mpStep onePoint es).shared.freed "mp" = 1 := by
  intro es
  refine ⟨mpRun_safe onePoint onePoint_begin es ?_, by decide⟩
  decide

/-- The point is found after the pipeline has lowered its count to zero, and is freed
while it is held. -/
theorem mpRun_freed_held :
    let s := final mpStep onePoint
      [.move 0, .find "mp", .move 1, .move 1, .move 1, .move 1, .move 0, .move 0]
    MpBegin onePoint ∧ s.shared.freed "mp" = 1 ∧ s.calls = [.checkEmpty, .holds "mp"] ∧
      ¬ MpSafe s := by
  have hfreed : (final mpStep onePoint
      [.move 0, .find "mp", .move 1, .move 1, .move 1, .move 1, .move 0, .move 0]).shared.freed
        "mp" = 1 := by decide
  have hcalls : (final mpStep onePoint
      [.move 0, .find "mp", .move 1, .move 1, .move 1, .move 1, .move 0, .move 0]).calls =
        [.checkEmpty, .holds "mp"] := by decide
  refine ⟨onePoint_begin, hfreed, hcalls, fun h => ?_⟩
  refine h.unheld "mp" (by rw [hfreed]; exact Nat.one_pos) (.holds "mp") ?_ rfl
  rw [hcalls]
  exact List.mem_cons_of_mem _ List.mem_cons_self

end Dnt
