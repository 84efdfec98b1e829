import Dnt.Library.Mealy
import Dnt.Library.Chains
import Dnt.Core.StreamNames

/-!
# Related Streams

Streams should be related if a chain of submitted sets connects them. A set that has
names of two groups is only copied into the first one, though, and the groups stay
apart: whether streams are related then depends on the order of the pipelines.

## Main definitions

* `RelatedAsSubmitted`: Names are related just if a chain of submitted sets connects them.
* `SwallowsGroups`: The group that a set is copied into swallows all the groups that it has
  names of.

## Theorems

* `related_iff`: After every submission the answers are right just if all submissions swallow
  their groups. The order of such ones does not matter.
-/

namespace Dnt

open Mealy

variable {s : List StreamNames × List StreamNames} {names : StreamNames}

def keys (names : StreamNames) : Set String :=
  {name | hashmapContains names name = true}

open List

theorem keys_nil : keys [] = ∅ :=
  Set.eq_empty_of_forall_notMem fun _ h => Bool.false_ne_true h

theorem keys_copyStreamnames (names snames : StreamNames) :
    keys (copyStreamnames names snames) = keys snames ∪ keys names := by
  induction names generalizing snames with
  | nil =>
    rw [keys_nil, Set.union_empty]
    rfl
  | cons e names ih =>
    unfold copyStreamnames at ih ⊢
    rw [foldl_cons, ih]
    ext name
    show hashmapContains _ name = true ∨ _ ↔ _ ∨ hashmapContains (e :: names) name = true
    rw [hashmapContains_insert, hashmapContains_cons]
    exact (or_congr_left or_comm).trans or_assoc

theorem sharesName_iff (s names : StreamNames) :
    sharesName s names = true ↔ (keys s ∩ keys names).Nonempty := by
  unfold sharesName
  rw [any_eq_true]
  constructor
  · rintro ⟨e, he, hs⟩
    exact ⟨e.1, hs, (hashmapContains_iff names e.1).mpr ⟨e, he, rfl⟩⟩
  · rintro ⟨name, hs, hname⟩
    rcases (hashmapContains_iff names name).mp hname with ⟨e, he, rfl⟩
    exact ⟨e, he, hs⟩

/-- What a submission does: the names are added to the first group that has one
of them, or they are a new group. -/
theorem addToFirst_cases (names : StreamNames) (groups : List StreamNames) :
    (addToFirst names groups = none ∧ ∀ s ∈ groups, ¬ sharesName s names = true) ∨
      ∃ before s after, groups = before ++ s :: after ∧
        (∀ s ∈ before, ¬ sharesName s names = true) ∧ sharesName s names = true ∧
        addToFirst names groups = some (before ++ copyStreamnames names s :: after) := by
  induction groups with
  | nil => exact Or.inl ⟨rfl, forall_mem_nil _⟩
  | cons s rest ih =>
    unfold addToFirst
    by_cases hs : sharesName s names = true
    · rw [if_pos hs]
      exact Or.inr ⟨[], s, rest, rfl, forall_mem_nil _, hs, rfl⟩
    · rw [if_neg hs]
      rcases ih with ⟨hnone, hrest⟩ | ⟨before, t, after, rfl, hbefore, ht, hadd⟩
      · rw [hnone]
        exact Or.inl ⟨rfl, forall_mem_cons.mpr ⟨hs, hrest⟩⟩
      · rw [hadd]
        exact Or.inr ⟨s :: before, t, after, rfl, forall_mem_cons.mpr ⟨hs, hbefore⟩, ht, rfl⟩

def groupSets (groups : List StreamNames) : List (Set String) :=
  groups.map keys

theorem sameCompoundStream_iff (groups : List StreamNames) (a b : String) :
    sameCompoundStream groups a b = true ↔ Together (groupSets groups) a b := by
  unfold sameCompoundStream Together groupSets
  rw [any_eq_true]
  constructor
  · rintro ⟨s, hs, hab⟩
    rw [Bool.and_eq_true] at hab
    exact ⟨keys s, mem_map_of_mem hs, hab⟩
  · rintro ⟨G, hG, hab⟩
    rcases mem_map.mp hG with ⟨s, hs, rfl⟩
    exact ⟨s, hs, (Bool.and_eq_true _ _).mpr hab⟩

/-! ## One submission -/

/-- The sets of names that were submitted. -/
def submittedSets (history : List StreamNames) : Set (Set String) :=
  {S | ∃ names ∈ history, keys names = S}

theorem submittedSets_cons (names : StreamNames) (history : List StreamNames) :
    submittedSets (names :: history) = insert (keys names) (submittedSets history) := by
  ext S
  show (∃ n ∈ names :: history, keys n = S) ↔ _
  rw [exists_mem_cons_iff, Set.mem_insert_iff, eq_comm]
  exact Iff.rfl

/-- Submit a set. The second component has all sets submitted so far. -/
def submitStep (s : List StreamNames × List StreamNames) (names : StreamNames) :
    (List StreamNames × List StreamNames) × Unit :=
  ((streamNamesInPipeline s.1 names, names :: s.2), ())

/-- Two names count as related exactly if a chain of submitted sets connects
them. -/
def RelatedAsSubmitted (s : List StreamNames × List StreamNames) : Prop :=
  ∀ a b, sameCompoundStream s.1 a b = true ↔ ChainConnected (submittedSets s.2) a b

/-- The group that the names are copied into. -/
def firstSharing (groups : List StreamNames) (names : StreamNames) : StreamNames :=
  (groups.find? fun s => sharesName s names).getD []

/-- Every group that has one of the names is part of the one they are copied into,
with the names. -/
def SwallowsGroups (s : List StreamNames × List StreamNames) (names : StreamNames) : Prop :=
  ∀ t ∈ s.1, sharesName t names = true → keys t ⊆ keys (firstSharing s.1 names) ∪ keys names

theorem streamNamesInPipeline_cases (groups : List StreamNames) (names : StreamNames) :
    ((∀ s ∈ groups, ¬ sharesName s names = true) ∧
        groupSets (streamNamesInPipeline groups names) = keys names :: groupSets groups) ∨
      ∃ before s after, groups = before ++ s :: after ∧
        (∀ s ∈ before, ¬ sharesName s names = true) ∧ sharesName s names = true ∧
        firstSharing groups names = s ∧ groupSets (streamNamesInPipeline groups names) =
          groupSets before ++ (keys s ∪ keys names) :: groupSets after := by
  unfold streamNamesInPipeline
  rcases addToFirst_cases names groups with
    ⟨hadd, hnone⟩ | ⟨before, s, after, rfl, hbefore, hs, hadd⟩
  · refine Or.inl ⟨hnone, ?_⟩
    rw [hadd]
    show keys (copyStreamnames names []) :: groupSets groups = _
    rw [keys_copyStreamnames, keys_nil, Set.empty_union]
  · refine Or.inr ⟨before, s, after, rfl, hbefore, hs, ?_, ?_⟩
    · unfold firstSharing
      rw [find?_append, find?_eq_none.mpr hbefore, Option.none_or, find?_cons, hs]
      rfl
    · rw [hadd]
      show List.map keys (before ++ copyStreamnames names s :: after) = _
      rw [map_append, map_cons, keys_copyStreamnames]
      rfl

theorem forall_groupSets {groups : List StreamNames}
    (h : ∀ s ∈ groups, ¬ sharesName s names = true) :
    ∀ G ∈ groupSets groups, ¬ (G ∩ keys names).Nonempty := by
  intro G hG
  rcases mem_map.mp hG with ⟨s, hs, rfl⟩
  rw [← sharesName_iff]
  exact h s hs

theorem swallowsGroups_iff {before after : List StreamNames} {s : StreamNames}
    (hbefore : ∀ s ∈ before, ¬ sharesName s names = true)
    (hfirst : firstSharing (before ++ s :: after) names = s) (history : List StreamNames) :
    SwallowsGroups (before ++ s :: after, history) names ↔
      ∀ G ∈ groupSets after, (G ∩ keys names).Nonempty → G ⊆ keys s ∪ keys names := by
  unfold SwallowsGroups
  rw [hfirst]
  constructor
  · intro hswallows G hG hmeet
    rcases mem_map.mp hG with ⟨t, ht, rfl⟩
    exact hswallows t (mem_append_right _ (mem_cons_of_mem _ ht))
      ((sharesName_iff t names).mpr hmeet)
  · intro hcover t ht hshares
    rcases mem_append.mp ht with ht | ht
    · exact absurd hshares (hbefore t ht)
    · rcases mem_cons.mp ht with rfl | ht
      · exact Set.subset_union_left
      · exact hcover _ (mem_map_of_mem ht) ((sharesName_iff t names).mp hshares)

/-- What holds between two submissions: the answers are right, and a group that
overlaps an earlier one is part of it. -/
structure RelatedOk (s : List StreamNames × List StreamNames) : Prop where
  nested : Nested (groupSets s.1)
  related : RelatedAsSubmitted s

theorem relatedAsSubmitted_iff_together : RelatedAsSubmitted s ↔
      ∀ a b, Together (groupSets s.1) a b ↔ ChainConnected (submittedSets s.2) a b := by
  unfold RelatedAsSubmitted
  simp only [sameCompoundStream_iff]

theorem submitStep_iff (hok : RelatedOk s) (names : StreamNames) :
    RelatedAsSubmitted (submitStep s names).1 ↔ SwallowsGroups s names := by
  rcases s with ⟨groups, history⟩
  have hcorrect := (relatedAsSubmitted_iff_together).mp hok.related
  rw [relatedAsSubmitted_iff_together]
  simp only [submitStep, submittedSets_cons]
  rcases streamNamesInPipeline_cases groups names with
    ⟨hnone, hgroups⟩ | ⟨before, s, after, rfl, hbefore, hs, hfirst, hgroups⟩
  · refine iff_of_true ?_ fun t ht hshares => absurd hshares (hnone t ht)
    rw [hgroups]
    exact together_new hcorrect (forall_groupSets hnone)
  · have hsplit : groupSets (before ++ s :: after) =
        groupSets before ++ keys s :: groupSets after := map_append
    have hnested := hok.nested
    simp only [hsplit] at hcorrect hnested
    rw [hgroups, swallowsGroups_iff hbefore hfirst history]
    exact together_merge_iff hnested hcorrect (forall_groupSets hbefore)
      ((sharesName_iff s names).mp hs)

theorem submitStep_ok (hok : RelatedOk s) (hswallows : SwallowsGroups s names) :
    RelatedOk (submitStep s names).1 := by
  refine ⟨?_, (submitStep_iff hok names).mpr hswallows⟩
  rcases s with ⟨groups, history⟩
  simp only [submitStep]
  rcases streamNamesInPipeline_cases groups names with
    ⟨hnone, hgroups⟩ | ⟨before, s, after, rfl, hbefore, hs, hfirst, hgroups⟩
  · rw [hgroups]
    exact nested_new hok.nested (forall_groupSets hnone)
  · have hsplit : groupSets (before ++ s :: after) =
        groupSets before ++ keys s :: groupSets after := map_append
    have hnested := hok.nested
    simp only [hsplit] at hnested
    rw [hgroups]
    exact nested_merge hnested (forall_groupSets hbefore)
      ((sharesName_iff s names).mp hs)
      ((swallowsGroups_iff hbefore hfirst history).mp hswallows)

/-! ## Every sequence of submissions -/

theorem relatedOk_nil : RelatedOk ([], []) := by
  refine ⟨List.Pairwise.nil, fun a b => iff_of_false Bool.false_ne_true ?_⟩
  rintro ⟨S, ⟨names, hnames, -⟩, -⟩
  exact not_mem_nil hnames

theorem final_history (s : List StreamNames × List StreamNames) (calls : List StreamNames) :
    (final submitStep s calls).2 = calls.reverse ++ s.2 := by
  induction calls generalizing s with
  | nil => rfl
  | cons names calls ih =>
    rw [final_cons, ih, reverse_cons, append_assoc]
    rfl

def groupsAfter (calls : List StreamNames) : List StreamNames :=
  calls.foldl streamNamesInPipeline []

theorem final_groups (s : List StreamNames × List StreamNames) (calls : List StreamNames) :
    (final submitStep s calls).1 = calls.foldl streamNamesInPipeline s.1 := by
  induction calls generalizing s with
  | nil => rfl
  | cons names calls ih => exact ih _

theorem submittedSets_perm {calls calls' : List StreamNames} (h : calls.Perm calls') :
    submittedSets calls = submittedSets calls' := by
  ext S
  exact exists_congr fun names => and_congr_left' h.mem_iff

theorem groupsAfter_related {calls : List StreamNames}
    (hswallows : EveryStep submitStep SwallowsGroups ([], []) calls) (a b : String) :
    sameCompoundStream (groupsAfter calls) a b = true ↔
      ChainConnected (submittedSets calls) a b := by
  have hok := final_invariant_of_everyStep RelatedOk SwallowsGroups
    (fun s names hok hswallows => submitStep_ok hok hswallows) relatedOk_nil calls hswallows
  have hrelated := hok.related a b
  rw [final_groups, final_history, append_nil, submittedSets_perm calls.reverse_perm] at hrelated
  exact hrelated

/-- Every sequence of submissions. After each of them, names are related exactly
if a chain of submitted sets connects them, if and only if every submission
swallows the groups it has names of. The order of such ones does not matter. -/
theorem related_iff (calls : List StreamNames) :
    (EveryStep submitStep (fun s names => RelatedAsSubmitted (submitStep s names).1)
        ([], []) calls ↔ EveryStep submitStep SwallowsGroups ([], []) calls) ∧
      ∀ calls', calls.Perm calls' → EveryStep submitStep SwallowsGroups ([], []) calls →
        EveryStep submitStep SwallowsGroups ([], []) calls' → ∀ a b,
          sameCompoundStream (groupsAfter calls) a b =
            sameCompoundStream (groupsAfter calls') a b := by
  refine ⟨?_, ?_⟩
  · exact everyStep_iff_of_invariant RelatedOk _ SwallowsGroups
      (fun s names hok hswallows => submitStep_ok hok hswallows)
      (fun s names hok => submitStep_iff hok names) relatedOk_nil calls
  · intro calls' hperm hswallows hswallows' a b
    rw [Bool.eq_iff_iff, groupsAfter_related hswallows, groupsAfter_related hswallows',
      submittedSets_perm hperm]

/-- Three pipelines, and the last one has a stream of each of the others: the
streams `a` and `c` are not related, but they would be if the last pipeline
had come first. -/
theorem bridge_not_related :
    ¬ RelatedAsSubmitted (final submitStep ([], [])
      [[("a", ()), ("b", ())], [("c", ()), ("d", ())], [("b", ()), ("c", ())]]) := by
  intro hrelated
  have hac := (hrelated "a" "c").mpr
  refine absurd (hac ?_) (by decide)
  -- the chain is the first set and the last one
  refine ChainConnected.trans (b := "b") ?_ ?_
  · refine chainConnected_of_mem (S := keys [("a", ()), ("b", ())]) ⟨_, ?_, rfl⟩ rfl rfl
    exact mem_of_elem_eq_true rfl
  · refine chainConnected_of_mem (S := keys [("b", ()), ("c", ())]) ⟨_, ?_, rfl⟩ rfl rfl
    exact mem_of_elem_eq_true rfl

end Dnt
