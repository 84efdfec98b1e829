import Mathlib.Data.Set.Lattice

/-!
# Chains of Overlapping Sets

A program keeps a list of groups, and merges a new set into the first group it
overlaps. Elements should be in one group just if a chain of overlapping sets connects
them.

## Main definitions

* `ChainConnected`: A chain of sets of a family connects two elements.
* `Together`: They are in one group.
* `Nested`: A group that overlaps an earlier one is part of it.

## Theorems

* `together_new`: A set that overlaps no group is a new one.
* `together_merge_iff`: Merging a set into the first group it overlaps keeps the groups
  right just if every other group that it overlaps is swallowed by the merged one.
-/

variable {α : Type*}

/-- Two sets of a family overlap. -/
def Linked (𝒮 : Set (Set α)) (S T : Set α) : Prop :=
  S ∈ 𝒮 ∧ T ∈ 𝒮 ∧ (S ∩ T).Nonempty

/-- The elements are in two sets of the family that a chain connects. -/
def ChainConnected (𝒮 : Set (Set α)) (a b : α) : Prop :=
  ∃ S ∈ 𝒮, ∃ T ∈ 𝒮, a ∈ S ∧ b ∈ T ∧ Relation.ReflTransGen (Linked 𝒮) S T

/-- The element is in the set `N`, or connected to one that is. -/
def Touches (𝒮 : Set (Set α)) (N : Set α) (a : α) : Prop :=
  a ∈ N ∨ ∃ n ∈ N, ChainConnected 𝒮 a n

section Chains

variable {𝒮 : Set (Set α)} {N S T : Set α} {a b c : α}

instance : Std.Symm (Linked 𝒮) :=
  ⟨fun S T h => ⟨h.2.1, h.1, Set.inter_comm S T ▸ h.2.2⟩⟩

theorem chainConnected_of_mem (hS : S ∈ 𝒮) (ha : a ∈ S) (hb : b ∈ S) : ChainConnected 𝒮 a b :=
  ⟨S, hS, S, hS, ha, hb, Relation.ReflTransGen.refl⟩

theorem ChainConnected.symm (h : ChainConnected 𝒮 a b) : ChainConnected 𝒮 b a := by
  rcases h with ⟨S, hS, T, hT, ha, hb, hchain⟩
  exact ⟨T, hT, S, hS, hb, ha, Std.Symm.symm _ _ hchain⟩

theorem ChainConnected.trans (h₁ : ChainConnected 𝒮 a b) (h₂ : ChainConnected 𝒮 b c) :
    ChainConnected 𝒮 a c := by
  rcases h₁ with ⟨S, hS, T, hT, ha, hb, hchain⟩
  rcases h₂ with ⟨S', hS', T', hT', hb', hc, hchain'⟩
  -- the chains meet where both sets have `b`
  have hlink : Linked 𝒮 T S' := ⟨hT, hS', b, hb, hb'⟩
  exact ⟨S, hS, T', hT', ha, hc, (hchain.tail hlink).trans hchain'⟩

theorem ChainConnected.mono {𝒯 : Set (Set α)} (hsub : 𝒮 ⊆ 𝒯) (h : ChainConnected 𝒮 a b) :
    ChainConnected 𝒯 a b := by
  rcases h with ⟨S, hS, T, hT, ha, hb, hchain⟩
  refine ⟨S, hsub hS, T, hsub hT, ha, hb, Relation.ReflTransGen.mono ?_ _ _ hchain⟩
  exact fun _ _ hlink => ⟨hsub hlink.1, hsub hlink.2.1, hlink.2.2⟩

theorem Touches.of_connected (h : ChainConnected 𝒮 a b) (hb : Touches 𝒮 N b) : Touches 𝒮 N a := by
  rcases hb with hb | ⟨n, hn, hbn⟩
  · exact Or.inr ⟨b, hb, h⟩
  · exact Or.inr ⟨n, hn, h.trans hbn⟩

theorem Touches.connected (h : Touches 𝒮 N a) (hb : b ∈ N) : ChainConnected (insert N 𝒮) a b := by
  rcases h with ha | ⟨n, hn, han⟩
  · exact chainConnected_of_mem (Set.mem_insert N 𝒮) ha hb
  · exact (han.mono (Set.subset_insert N 𝒮)).trans
      (chainConnected_of_mem (Set.mem_insert N 𝒮) hn hb)

/-- A chain in the larger family either does without the new set, or its ends
touch it. -/
theorem connected_or_touches (hS : S ∈ insert N 𝒮)
    (hchain : Relation.ReflTransGen (Linked (insert N 𝒮)) S T) (ha : a ∈ S) (hb : b ∈ T) :
    ChainConnected 𝒮 a b ∨ (Touches 𝒮 N a ∧ Touches 𝒮 N b) := by
  induction hchain generalizing b with
  | refl =>
    rcases Set.mem_insert_iff.mp hS with rfl | hS
    · exact Or.inr ⟨Or.inl ha, Or.inl hb⟩
    · exact Or.inl (chainConnected_of_mem hS ha hb)
  | tail _ hlink ih =>
    rcases hlink with ⟨-, hU, n, hnT, hnU⟩
    rcases Set.mem_insert_iff.mp hU with rfl | hU
    · rcases ih hnT with han | ⟨ha, -⟩
      · exact Or.inr ⟨Or.inr ⟨n, hnU, han⟩, Or.inl hb⟩
      · exact Or.inr ⟨ha, Or.inl hb⟩
    · have hnb := chainConnected_of_mem hU hnU hb
      rcases ih hnT with han | ⟨ha, hn⟩
      · exact Or.inl (han.trans hnb)
      · exact Or.inr ⟨ha, Touches.of_connected hnb.symm hn⟩

theorem chainConnected_insert : ChainConnected (insert N 𝒮) a b ↔
      ChainConnected 𝒮 a b ∨ (Touches 𝒮 N a ∧ Touches 𝒮 N b) := by
  constructor
  · rintro ⟨S, hS, T, hT, ha, hb, hchain⟩
    exact connected_or_touches hS hchain ha hb
  · rintro (h | ⟨ha, hb⟩)
    · exact h.mono (Set.subset_insert N 𝒮)
    · have hN : N.Nonempty := ha.elim (fun h => ⟨a, h⟩) fun ⟨n, hn, _⟩ => ⟨n, hn⟩
      rcases hN with ⟨n, hn⟩
      exact (ha.connected hn).trans (hb.connected hn).symm

end Chains

/-- Two elements are in one group. -/
def Together (groups : List (Set α)) (a b : α) : Prop :=
  ∃ G ∈ groups, a ∈ G ∧ b ∈ G

/-- A group that overlaps an earlier one is part of it. -/
def Nested (groups : List (Set α)) : Prop :=
  groups.Pairwise fun G H => (G ∩ H).Nonempty → H ⊆ G

section Groups

variable {𝒮 : Set (Set α)} {N F : Set α} {before after groups : List (Set α)}

theorem touches_iff_of_together
    (hcorrect : ∀ a b, Together groups a b ↔ ChainConnected 𝒮 a b) (a : α) :
    Touches 𝒮 N a ↔ a ∈ N ∨ ∃ G ∈ groups, (G ∩ N).Nonempty ∧ a ∈ G := by
  unfold Touches
  refine or_congr Iff.rfl ⟨?_, ?_⟩
  · rintro ⟨n, hn, han⟩
    rcases (hcorrect a n).mpr han with ⟨G, hG, ha, hnG⟩
    exact ⟨G, hG, ⟨n, hnG, hn⟩, ha⟩
  · rintro ⟨G, hG, ⟨n, hnG, hn⟩, ha⟩
    exact ⟨n, hn, (hcorrect a n).mp ⟨G, hG, ha, hnG⟩⟩

theorem together_append_cons (a b : α) : Together (before ++ F :: after) a b ↔
      Together (before ++ after) a b ∨ (a ∈ F ∧ b ∈ F) := by
  unfold Together
  constructor
  · rintro ⟨G, hG, hab⟩
    rcases List.mem_append.mp hG with hG | hG
    · exact Or.inl ⟨G, List.mem_append_left _ hG, hab⟩
    · rcases List.mem_cons.mp hG with rfl | hG
      · exact Or.inr hab
      · exact Or.inl ⟨G, List.mem_append_right _ hG, hab⟩
  · rintro (⟨G, hG, hab⟩ | hab)
    · rcases List.mem_append.mp hG with hG | hG
      · exact ⟨G, List.mem_append_left _ hG, hab⟩
      · exact ⟨G, List.mem_append_right _ (List.mem_cons_of_mem _ hG), hab⟩
    · exact ⟨F, List.mem_append_right _ List.mem_cons_self, hab⟩

/-- Merging a set into the first group it overlaps keeps the groups nested, if
the merged group swallows the other ones. -/
theorem nested_merge (hnested : Nested (before ++ F :: after))
    (hbefore : ∀ G ∈ before, ¬ (G ∩ N).Nonempty) (hmeet : (F ∩ N).Nonempty)
    (hcover : ∀ G ∈ after, (G ∩ N).Nonempty → G ⊆ F ∪ N) : Nested (before ++ (F ∪ N) :: after) := by
  unfold Nested at hnested ⊢
  rw [List.pairwise_append, List.pairwise_cons] at hnested ⊢
  rcases hnested with ⟨hb, ⟨hF, ha⟩, hcross⟩
  refine ⟨hb, ⟨?_, ha⟩, ?_⟩
  · -- a later group overlaps the old part or the new part
    rintro G hG ⟨x, hx | hx, hxG⟩
    · exact (hF G hG ⟨x, hx, hxG⟩).trans Set.subset_union_left
    · exact hcover G hG ⟨x, hxG, hx⟩
  · intro G hG H hH
    rcases List.mem_cons.mp hH with rfl | hH
    · -- an earlier group overlaps neither part
      rintro ⟨x, hxG, hx | hx⟩
      · have hsub := hcross G hG F List.mem_cons_self ⟨x, hxG, hx⟩
        rcases hmeet with ⟨y, hyF, hyN⟩
        exact absurd ⟨y, hsub hyF, hyN⟩ (hbefore G hG)
      · exact absurd ⟨x, hxG, hx⟩ (hbefore G hG)
    · exact hcross G hG H (List.mem_cons_of_mem _ hH)

/-- Merging into the first group gives what the chains connect exactly if the
merged group swallows the other ones. -/
theorem together_merge_iff (hnested : Nested (before ++ F :: after))
    (hcorrect : ∀ a b, Together (before ++ F :: after) a b ↔ ChainConnected 𝒮 a b)
    (hbefore : ∀ G ∈ before, ¬ (G ∩ N).Nonempty) (hmeet : (F ∩ N).Nonempty) :
    (∀ a b, Together (before ++ (F ∪ N) :: after) a b ↔ ChainConnected (insert N 𝒮) a b) ↔
      ∀ G ∈ after, (G ∩ N).Nonempty → G ⊆ F ∪ N := by
  have hF : F ∈ before ++ F :: after := List.mem_append_right _ List.mem_cons_self
  constructor
  · -- an element of `G` is connected to an element `n` of `F` and `N`
    intro hcorrect' G hG hGN g hg
    rcases hmeet with ⟨n, hnF, hnN⟩
    have hgn : ChainConnected (insert N 𝒮) g n := by
      refine Touches.connected ((touches_iff_of_together hcorrect g).mpr ?_) hnN
      exact Or.inr ⟨G, List.mem_append_right _ (List.mem_cons_of_mem _ hG), hGN, hg⟩
    rcases (hcorrect' g n).mpr hgn with ⟨H, hH, hgH, hnH⟩
    rcases List.mem_append.mp hH with hH | hH
    · exact absurd ⟨n, hnH, hnN⟩ (hbefore H hH)
    · rcases List.mem_cons.mp hH with rfl | hH
      · exact hgH
      · have hsub := (List.pairwise_cons.mp (List.pairwise_append.mp hnested).2.1).1 H hH
        exact Or.inl (hsub ⟨n, hnF, hnH⟩ hgH)
  · intro hcover a b
    -- the elements that touch `N` are those of the merged group
    have htouch : ∀ a, Touches 𝒮 N a ↔ a ∈ F ∪ N := by
      intro a
      rw [touches_iff_of_together hcorrect]
      constructor
      · rintro (ha | ⟨G, hG, hGN, ha⟩)
        · exact Or.inr ha
        · rcases List.mem_append.mp hG with hG | hG
          · exact absurd hGN (hbefore G hG)
          · rcases List.mem_cons.mp hG with rfl | hG
            · exact Or.inl ha
            · exact hcover G hG hGN ha
      · rintro (ha | ha)
        · exact Or.inr ⟨F, hF, hmeet, ha⟩
        · exact Or.inl ha
    rw [chainConnected_insert, htouch, htouch, ← hcorrect, together_append_cons,
      together_append_cons]
    constructor
    · rintro (h | h)
      · exact Or.inl (Or.inl h)
      · exact Or.inr h
    · rintro ((h | ⟨ha, hb⟩) | h)
      · exact Or.inl h
      · exact Or.inr ⟨Or.inl ha, Or.inl hb⟩
      · exact Or.inr h

theorem nested_new (hnested : Nested groups) (hnone : ∀ G ∈ groups, ¬ (G ∩ N).Nonempty) :
    Nested (N :: groups) := by
  refine List.pairwise_cons.mpr ⟨?_, hnested⟩
  rintro G hG ⟨x, hxN, hxG⟩
  exact absurd ⟨x, hxG, hxN⟩ (hnone G hG)

theorem together_new (hcorrect : ∀ a b, Together groups a b ↔ ChainConnected 𝒮 a b)
    (hnone : ∀ G ∈ groups, ¬ (G ∩ N).Nonempty) (a b : α) :
    Together (N :: groups) a b ↔ ChainConnected (insert N 𝒮) a b := by
  have htouch : ∀ a, Touches 𝒮 N a ↔ a ∈ N := by
    intro a
    rw [touches_iff_of_together hcorrect, or_iff_left]
    rintro ⟨G, hG, hGN, -⟩
    exact hnone G hG hGN
  rw [chainConnected_insert, htouch, htouch, ← hcorrect, ← List.nil_append (N :: groups),
    together_append_cons, List.nil_append]

end Groups
