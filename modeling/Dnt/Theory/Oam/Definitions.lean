import Dnt.Core.OamAccounting
import Dnt.Core.OamPoints

/-!
# One Definition for a Maintenance Point

Calls that share a point should agree on what it is, and a call that does not
should be refused. This is so for the stream and the object. A level or a type
that differs is only found if the object differs as well, and then the call would
be refused anyway. So a start and a stop point of one name, or points on two
levels, become one point, with what the first call said.

## Main definitions

* `GuardsPoint`: A call that differs from its point is refused.
* `SameKind`: A call with the stream and object of its point has its level and type, too.
* `Consistent`: All accepted calls for a point agree, and all calls are guarded.

## Theorems

* `newPoint_cases`: A call is refused, creates its point, or shares one.
* `counts_newPoint`: What a call does to the reference counts.
* `consistent_iff`: A run is consistent just if no call differs from its point only in the
  level or the type.
-/

namespace Dnt

open Mealy Function

variable {t : MpRegistry} {c : MpCall} {name : String} {d : MpDefinition}

/-- A call is refused, and nothing changes. -/
def Refused (t : MpRegistry) (c : MpCall) : Prop :=
  ∃ e, t.oamNewMaintenancePoint c = (t, .error e)

/-- There is a point with the name, and this is what it was defined as. -/
def Defined (t : MpRegistry) (name : String) (d : MpDefinition) : Prop :=
  ∃ mp, t name = some mp ∧ mp.definition = d

/-- A call that does not agree with the point is refused. -/
def GuardsPoint (t : MpRegistry) (c : MpCall) : Prop :=
  ∀ d, Defined t c.mpName d → c.definition ≠ d → Refused t c

/-- Where the stream and the object are those of the point, so are the level and
the type. -/
def SameKind (t : MpRegistry) (c : MpCall) : Prop :=
  ∀ d, Defined t c.mpName d → c.definition.object = d.object →
    c.definition.streamName = d.streamName →
    c.definition.level = d.level ∧ c.definition.type = d.type

/-- The calls that succeed, with the names of their points. -/
def acceptedCalls : MpRegistry → List MpCall → List (MpCall × String)
  | _, [] => []
  | t, c :: calls =>
    match t.oamNewMaintenancePoint c with
    | (t, .ok name) => (c, name) :: acceptedCalls t calls
    | (t, .error _) => acceptedCalls t calls

def noPoints : MpRegistry := fun _ => none

/-- Accepted calls for one point agree in what it is, and the others are refused. -/
structure Consistent (calls : List MpCall) : Prop where
  agree : ∀ a ∈ acceptedCalls noPoints calls, ∀ b ∈ acceptedCalls noPoints calls,
    a.2 = b.2 → a.1.definition = b.1.definition
  guards : EveryStep MpRegistry.oamNewMaintenancePoint GuardsPoint noPoints calls

/-- A call is refused, creates the point, or shares a point with its stream and
its object. -/
theorem newPoint_cases (t : MpRegistry) (c : MpCall) : Refused t c ∨ ∃ mp,
      t.oamNewMaintenancePoint c = (update t c.mpName (some mp), .ok c.mpName) ∧
        (t c.mpName = none ∧ mp.definition = c.definition ∨
          Defined t c.mpName mp.definition ∧ c.definition.object = mp.definition.object ∧
            c.definition.streamName = mp.definition.streamName) := by
  unfold Refused MpRegistry.oamNewMaintenancePoint
  cases hlive : t c.mpName with
  | none =>
    cases mpEncap c.protocol with
    | none => exact .inl ⟨_, rfl⟩
    | some encap => exact .inr ⟨_, rfl, .inl ⟨rfl, rfl⟩⟩
  | some mp =>
    by_cases hobject : mp.definition.object = c.definition.object
    · by_cases hstream : c.definition.streamName = mp.definition.streamName
      · dsimp only
        rw [if_neg (not_not.mpr hobject), if_neg (not_not.mpr hstream)]
        exact .inr ⟨_, rfl, .inr ⟨⟨mp, hlive, rfl⟩, hobject.symm, hstream⟩⟩
      · exact .inl ⟨.stream, by dsimp only; rw [if_neg (not_not.mpr hobject), if_pos hstream]⟩
    · left
      dsimp only
      rw [if_pos hobject]
      split_ifs <;> simp_all

/-- The reference counts of the points. -/
def MpRegistry.counts (t : MpRegistry) (name : String) : Option Int :=
  (t name).map fun mp => (mp.referenceCount : Int)

theorem counts_update (t : MpRegistry) (name : String) (mp : MpPoint) :
    MpRegistry.counts (update t name (some mp)) =
      update t.counts name (some (mp.referenceCount : Int)) := by
  funext x
  by_cases hx : x = name
  · subst hx
    rw [update_self]
    exact congrArg (Option.map _) (update_self x (some mp) t)
  · rw [update_of_ne hx]
    exact congrArg (Option.map _) (update_of_ne hx (some mp) t)

/-- For the counts alone, a call that is accepted is one of `oamNewMaintenancePoint`, where
nothing is refused. -/
theorem counts_newPoint (t : MpRegistry) (c : MpCall) : Refused t c ∨
    (t.oamNewMaintenancePoint c).1.counts = oamNewMaintenancePoint t.counts c.mpName := by
  unfold Refused MpRegistry.oamNewMaintenancePoint oamNewMaintenancePoint
  cases hlive : t c.mpName with
  | none =>
    cases mpEncap c.protocol with
    | none => exact .inl ⟨_, rfl⟩
    | some encap =>
      refine .inr ((counts_update t _ _).trans ?_)
      rw [MpRegistry.counts, hlive]
      rfl
  | some mp =>
    dsimp only
    split_ifs
    · exact .inl ⟨_, rfl⟩
    · exact .inl ⟨_, rfl⟩
    · exact .inl ⟨_, rfl⟩
    · exact .inl ⟨_, rfl⟩
    · refine .inr ((counts_update t _ _).trans ?_)
      rw [MpRegistry.counts, hlive]
      rfl

/-- A call with the stream and the object of the point is not refused. -/
theorem not_refused_of_same (hlive : Defined t c.mpName d)
    (hobject : c.definition.object = d.object)
    (hstream : c.definition.streamName = d.streamName) : ¬ Refused t c := by
  rintro ⟨e, he⟩
  obtain ⟨mp, hmp, rfl⟩ := hlive
  have hok : (t.oamNewMaintenancePoint c).2 = .ok c.mpName := by
    simp [MpRegistry.oamNewMaintenancePoint, hmp, hobject, hstream]
  rw [he] at hok
  nomatch hok

theorem guardsPoint_iff (t : MpRegistry) (c : MpCall) : GuardsPoint t c ↔ SameKind t c := by
  constructor
  · intro h d hlive hobject hstream
    by_cases hsame : c.definition = d
    · exact ⟨congrArg MpDefinition.level hsame, congrArg MpDefinition.type hsame⟩
    · exact absurd (h d hlive hsame) (not_refused_of_same hlive hobject hstream)
  · intro h d hlive hdiffers
    rcases newPoint_cases t c with hrefused | ⟨mp, -, ⟨hnone, -⟩ | ⟨hpoint, hobject, hstream⟩⟩
    · exact hrefused
    · obtain ⟨old, hold, -⟩ := hlive
      rw [hnone] at hold
      nomatch hold
    · obtain ⟨old, hold, rfl⟩ := hlive
      obtain ⟨old', hold', hdef⟩ := hpoint
      obtain rfl : old = old' := Option.some.inj (hold.symm.trans hold')
      rw [← hdef] at hobject hstream
      obtain ⟨hlevel, htype⟩ := h _ ⟨old, hold, rfl⟩ hobject hstream
      refine absurd ?_ hdiffers
      cases hc : c.definition
      cases hd : old.definition
      simp_all

/-- What a point was defined as stays. -/
theorem Defined.step (h : Defined t name d) (c : MpCall) :
    Defined (t.oamNewMaintenancePoint c).1 name d := by
  rcases newPoint_cases t c with ⟨e, he⟩ | ⟨mp, hmp, hcase⟩
  · rw [he]
    exact h
  rw [hmp]
  by_cases hname : name = c.mpName
  · subst hname
    obtain ⟨old, hold, rfl⟩ := h
    rcases hcase with ⟨hnone, -⟩ | ⟨⟨old', hold', hdef⟩, -⟩
    · rw [hnone] at hold
      nomatch hold
    · obtain rfl : old = old' := Option.some.inj (hold.symm.trans hold')
      exact ⟨mp, update_self _ _ _, hdef.symm⟩
  · obtain ⟨old, hold, hd⟩ := h
    exact ⟨old, (update_of_ne hname _ _).trans hold, hd⟩

/-- An accepted call returns a point that is what the call says. -/
theorem defined_of_accepted (hguards : GuardsPoint t c)
    (h : (t.oamNewMaintenancePoint c).2 = .ok name) :
    Defined (t.oamNewMaintenancePoint c).1 name c.definition := by
  rcases newPoint_cases t c with ⟨e, he⟩ | ⟨mp, hmp, hcase⟩
  · rw [he] at h
    nomatch h
  rw [hmp] at h ⊢
  obtain rfl := Except.ok.inj h
  refine ⟨mp, update_self _ _ _, ?_⟩
  rcases hcase with ⟨-, hdef⟩ | ⟨hlive, hobject, hstream⟩
  · exact hdef
  · by_contra hdiffers
    exact not_refused_of_same hlive hobject hstream
      (hguards _ hlive fun hsame => hdiffers hsame.symm)

/-- At the end of a run the points are what all accepted calls said. -/
theorem defined_final {calls : List MpCall}
    (h : EveryStep MpRegistry.oamNewMaintenancePoint GuardsPoint t calls) :
    ∀ a ∈ acceptedCalls t calls,
      Defined (final MpRegistry.oamNewMaintenancePoint t calls) a.2 a.1.definition := by
  induction calls generalizing t with
  | nil => nofun
  | cons c calls ih =>
    intro a ha
    have hrest := ih h.2
    have hfirst := @defined_of_accepted t c
    rw [acceptedCalls] at ha
    rw [final_cons]
    split at ha
    case h_1 t' name hstep =>
      rw [hstep] at hrest hfirst ⊢
      rcases List.mem_cons.mp ha with rfl | ha
      · exact final_invariant (Defined · name c.definition) (fun _ c h => h.step c)
          (hfirst h.1 rfl) calls
      · exact hrest a ha
    case h_2 t' e hstep =>
      rw [hstep] at hrest ⊢
      exact hrest a ha

/-- Points have one definition in a run, and calls that differ are refused, exactly
if no call differs from its point only in the level or the type. -/
theorem consistent_iff (calls : List MpCall) :
    Consistent calls ↔ EveryStep MpRegistry.oamNewMaintenancePoint SameKind noPoints calls := by
  have hiff := @everyStep_iff_of_invariant _ _ _ MpRegistry.oamNewMaintenancePoint (fun _ => True)
    GuardsPoint SameKind (fun _ _ _ _ => trivial) (fun t c _ => guardsPoint_iff t c) noPoints
    trivial calls
  rw [← hiff]
  refine ⟨Consistent.guards, fun h => ⟨fun a ha b hb hname => ?_, h⟩⟩
  obtain ⟨mp, hmp, ha⟩ := defined_final h a ha
  obtain ⟨mp', hmp', hb⟩ := defined_final h b hb
  rw [← hname, hmp] at hmp'
  rw [← ha, ← hb, Option.some.inj hmp']

/-- The call of an inject action and that of a receive action. -/
def mepCall (type : OamMpType) (level : Nat) : MpCall :=
  ⟨"mep", ⟨"stream", type, level, none⟩, .eth, none, none⟩

/-- A start point and a stop point on two levels, with one name: both calls are
accepted and return the same point. -/
theorem start_becomes_stop :
    (outputs MpRegistry.oamNewMaintenancePoint noPoints [mepCall .start 1, mepCall .stop 5]).map
        Except.toOption = [some "mep", some "mep"] ∧
      ¬ Consistent [mepCall .start 1, mepCall .stop 5] := by
  refine ⟨by decide, fun h => ?_⟩
  have hlive : Defined (noPoints.oamNewMaintenancePoint (mepCall .start 1)).1 "mep"
      ⟨"stream", .start, 1, none⟩ := ⟨_, rfl, rfl⟩
  exact @not_refused_of_same _ (mepCall .stop 5) _ hlive rfl rfl (h.guards.2.1 _ hlive (by decide))

end Dnt
