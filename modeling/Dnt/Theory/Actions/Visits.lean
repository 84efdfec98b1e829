import Dnt.Theory.Actions.HeaderRun

/-!
# Runs of Origins

What an action does to the origins of a packet's headers does not depend on the
packet, so a run of a pipeline is projected to the lists of origins it goes through.
Nothing is lost as long as headers can be added.

## Main definitions

* `Visits`: An action can be executed on a packet with given origins.
* `Reachable`: Every action of a pipeline can be executed.

## Theorems

* `reachable_append`: All actions of two pipelines one behind the other can be executed, if
  this is so for each of them and the first one lets packets go on.
-/

namespace Dnt

variable {a b : ConfAction} {before behind actions : List ConfAction} {o o' : List Origin}
  {t t' : TaggedPacket}

/-- What an action does to the list of headers. -/
def effect (origins : List Origin) (a : ConfAction) : List Origin :=
  match a.body with
  | .add d => origins.insertIdx d.posIdx (.header d.newTag)
  | .del d => origins.eraseIdx d.idx
  | _ => origins

/-- `Visits o as a o'`: the action `a` can be executed on a packet with headers
`o'`, when one with headers `o` enters the pipeline. -/
inductive Visits : List Origin → List ConfAction → ConfAction → List Origin → Prop where
  | here (o : List Origin) (a : ConfAction) (actions : List ConfAction) :
      Visits o (a :: actions) a o
  | next (o o' : List Origin) (a b : ConfAction) (actions : List ConfAction)
      (hgoes : goesOn a.body = true) (hrest : Visits (effect o a) actions b o') :
      Visits o (a :: actions) b o'
  | branch (o o' : List Origin) (a b : ConfAction) (actions : List ConfAction)
      (d : ReplAction ConfAction) (br : ReplicateBranch ConfAction) (hbody : a.body = .repl d)
      (hbr : br ∈ d.pipelines) (hrest : Visits o br.actions b o') :
      Visits o (a :: actions) b o'

open List

theorem origins_of_advances (h : Advances t a t') : t'.origins = effect t.origins a := by
  cases h with
  | add _ _ d hbody hadd =>
    unfold TaggedPacket.add at hadd
    split at hadd
    · cases hadd
      simp only [effect, hbody]
    · cases hadd
  | del _ d hbody => simp only [effect, hbody, TaggedPacket.del]
  | other _ buf hgoes hother =>
    unfold effect
    cases hbody : a.body with
    | add d | del d =>
      rw [hbody] at hother
      cases hother
    | _ => rfl

theorem goesOn_of_advances (h : Advances t a t') : goesOn a.body = true := by
  cases h with
  | add _ _ d hbody hadd | del _ d hbody =>
    rw [hbody]
    rfl
  | other _ buf hgoes hother => exact hgoes

theorem visits_of_executes (h : Executes t actions a t') :
    Visits t.origins actions a t'.origins := by
  induction h with
  | here t a actions => exact .here _ a actions
  | next t t₁ t₂ a b actions hstep hrest ih =>
    rw [origins_of_advances hstep] at ih
    exact .next _ _ a b actions (goesOn_of_advances hstep) ih
  | branch t t₁ a b actions d br hbody hbr hrest ih =>
    exact .branch _ _ a b actions d br hbody hbr ih

theorem advances_of_goesOn (hgoes : goesOn a.body = true) (hadd : ∀ d, a.body = .add d →
      (t.add d.posIdx d.id d.len (.header d.newTag)).isSome = true) : ∃ t', Advances t a t' := by
  cases hbody : a.body with
  | add d =>
    rcases Option.isSome_iff_exists.mp (hadd d hbody) with ⟨t', ht'⟩
    exact ⟨t', .add t t' a d hbody ht'⟩
  | del d => exact ⟨_, .del t a d hbody⟩
  | _ =>
    refine ⟨t.write t.packet.buf, .other t a _ hgoes ?_⟩
    rw [hbody]
    rfl

theorem executes_of_visits (h : Visits o actions b o') (t : TaggedPacket) (ht : t.origins = o)
    (hadds : AddsSucceed t actions) : ∃ t', Executes t actions b t' ∧ t'.origins = o' := by
  induction h generalizing t with
  | here o a actions => exact ⟨t, .here t a actions, ht⟩
  | next o o' a b actions hgoes hrest ih =>
    rcases advances_of_goesOn hgoes (fun d hbody => hadds a t d (.here t a actions) hbody)
      with ⟨t₁, hstep⟩
    have horigins := origins_of_advances hstep
    rw [ht] at horigins
    rcases ih t₁ horigins (fun c t' d hrun hbody =>
      hadds c t' d (.next t t₁ t' a c actions hstep hrun) hbody) with ⟨t', hrun, ht'⟩
    exact ⟨t', .next t t₁ t' a b actions hstep hrun, ht'⟩
  | branch o o' a b actions d br hbody hbr hrest ih =>
    rcases ih t ht (fun c t' e hrun he =>
      hadds c t' e (.branch t t' a c actions d br hbody hbr hrun) he) with ⟨t', hrun, ht'⟩
    exact ⟨t', .branch t t' a b actions d br hbody hbr hrun, ht'⟩

/-! ## Pipelines put together -/

theorem visits_append (o : List Origin) (h : Visits o (before ++ behind) b o') :
    Visits o before b o' ∨ Visits (before.foldl effect o) behind b o' := by
  induction before generalizing o with
  | nil => exact Or.inr h
  | cons a before ih =>
    cases h with
    | here => exact Or.inl (.here _ _ _)
    | next _ _ _ _ _ hgoes hrest =>
      rcases ih _ hrest with hbefore | hbehind
      · exact Or.inl (.next _ _ _ _ _ hgoes hbefore)
      · exact Or.inr hbehind
    | branch _ _ _ _ _ d br hbody hbr hrest =>
      exact Or.inl (.branch _ _ _ _ _ d br hbody hbr hrest)

theorem visits_append_left (behind : List ConfAction) (h : Visits o before b o') :
    Visits o (before ++ behind) b o' := by
  induction h with
  | here o a actions => exact .here _ _ _
  | next o o' a b actions hgoes hrest ih => exact .next _ _ _ _ _ hgoes ih
  | branch o o' a b actions d br hbody hbr hrest ih =>
    exact .branch _ _ _ _ _ d br hbody hbr hrest

theorem visits_append_right (o : List Origin) (hgoes : ∀ a ∈ before, goesOn a.body = true)
    (h : Visits (before.foldl effect o) behind b o') : Visits o (before ++ behind) b o' := by
  induction before generalizing o with
  | nil => exact h
  | cons a before ih =>
    rcases forall_mem_cons.mp hgoes with ⟨ha, hbefore⟩
    exact .next _ _ _ _ _ ha (ih (effect o a) hbefore h)

/-! ## All actions of a pipeline -/

/-- The action is in the list, or in a branch of it. -/
inductive Within : List ConfAction → ConfAction → Prop where
  | here (actions : List ConfAction) (b : ConfAction) (hb : b ∈ actions) : Within actions b
  | branch (actions : List ConfAction) (a b : ConfAction) (d : ReplAction ConfAction)
      (br : ReplicateBranch ConfAction) (ha : a ∈ actions) (hbody : a.body = .repl d)
      (hbr : br ∈ d.pipelines) (hrest : Within br.actions b) : Within actions b

theorem not_within_nil (b : ConfAction) : ¬ Within [] b := by
  intro h
  cases h with
  | here _ _ hb => cases hb
  | branch _ a _ d br ha _ _ _ => cases ha

theorem within_mono {actions' : List ConfAction} (hsub : ∀ a ∈ actions, a ∈ actions')
    (h : Within actions b) : Within actions' b := by
  cases h with
  | here _ _ hb => exact .here _ _ (hsub b hb)
  | branch _ a _ d br ha hbody hbr hrest => exact .branch _ a b d br (hsub a ha) hbody hbr hrest

theorem within_append_iff (before behind : List ConfAction) (b : ConfAction) :
    Within (before ++ behind) b ↔ Within before b ∨ Within behind b := by
  constructor
  · intro h
    cases h with
    | here _ _ hb =>
      rcases mem_append.mp hb with hb | hb
      · exact Or.inl (.here _ _ hb)
      · exact Or.inr (.here _ _ hb)
    | branch _ a _ d br ha hbody hbr hrest =>
      rcases mem_append.mp ha with ha | ha
      · exact Or.inl (.branch _ a b d br ha hbody hbr hrest)
      · exact Or.inr (.branch _ a b d br ha hbody hbr hrest)
  · rintro (h | h)
    · exact within_mono (fun a ha => mem_append_left _ ha) h
    · exact within_mono (fun a ha => mem_append_right _ ha) h

theorem within_of_visits (h : Visits o actions b o') : Within actions b := by
  induction h with
  | here o a actions => exact .here _ a mem_cons_self
  | next o o' a b actions hgoes hrest ih =>
    exact within_mono (fun c hc => mem_cons_of_mem _ hc) ih
  | branch o o' a b actions d br hbody hbr hrest ih =>
    exact .branch _ a b d br mem_cons_self hbody hbr ih

theorem within_cons_iff (b : ConfAction) (rest : List ConfAction) (hrepl : ∀ d, a.body ≠ .repl d) :
    Within (a :: rest) b ↔ b = a ∨ Within rest b := by
  constructor
  · intro h
    cases h with
    | here _ _ hb =>
      rcases mem_cons.mp hb with hb | hb
      · exact Or.inl hb
      · exact Or.inr (.here _ _ hb)
    | branch _ c _ d br hc hbody hbr hrest =>
      rcases mem_cons.mp hc with rfl | hc
      · exact absurd hbody (hrepl d)
      · exact Or.inr (.branch _ c b d br hc hbody hbr hrest)
  · rintro (rfl | h)
    · exact .here _ _ mem_cons_self
    · exact within_mono (fun _ hc => mem_cons_of_mem _ hc) h

/-- Every action of the pipeline can be executed. -/
def Reachable (o : List Origin) (actions : List ConfAction) : Prop :=
  ∀ b, Within actions b → ∃ o', Visits o actions b o'

theorem reachable_append (hgoes : ∀ a ∈ before, goesOn a.body = true) (hbefore : Reachable o before)
    (hbehind : Reachable (before.foldl effect o) behind) : Reachable o (before ++ behind) := by
  intro b hb
  rcases (within_append_iff before behind b).mp hb with hb | hb
  · rcases hbefore b hb with ⟨o', hvisit⟩
    exact ⟨o', visits_append_left behind hvisit⟩
  · rcases hbehind b hb with ⟨o', hvisit⟩
    exact ⟨o', visits_append_right o hgoes hvisit⟩

theorem reachable_nil (o : List Origin) : Reachable o [] :=
  fun b hb => absurd hb (not_within_nil b)

theorem reachable_singleton (o : List Origin) (hrepl : ∀ d, a.body ≠ .repl d) :
    Reachable o [a] := by
  intro b hb
  rcases (within_cons_iff b [] hrepl).mp hb with rfl | hb
  · exact ⟨o, .here o b []⟩
  · exact absurd hb (not_within_nil b)

theorem reachable_repl {d : ReplAction ConfAction} (hbody : a.body = .repl d)
    (h : ∀ br ∈ d.pipelines, Reachable o br.actions) : Reachable o [a] := by
  intro b hb
  cases hb with
  | here _ _ hb =>
    rw [mem_singleton.mp hb]
    exact ⟨o, .here o a []⟩
  | branch _ c _ d' br hc hbody' hbr hin =>
    rw [mem_singleton.mp hc, hbody] at hbody'
    cases hbody'
    rcases h br hbr b hin with ⟨o', hvisit⟩
    exact ⟨o', .branch o o' a b [] d br hbody hbr hvisit⟩

end Dnt
