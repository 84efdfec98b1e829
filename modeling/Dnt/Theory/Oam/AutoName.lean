import Dnt.Core.ConfOam

/-!
# Names of Generated Maintenance Points

The name of a generated point has a tag such as `_L3_pre-` between the stream and
the object, but both may have tags in them, and the position is looked for in the
whole text. Only the first underscore of a tag is followed by `L`. So two tags in a
text never overlap, and every other way of reading a name takes a tag of the stream or
of the object for the one between them.

## Main definitions

* `automipTag`: What is between the names of the stream and of the object.
* `Identified`: The name is that of no other input, and shows the position.
* `Unmistakable`: No part of the input can be taken for the tag of another one.

## Theorems

* `identified_iff`: The inputs that are identified are those that are unmistakable.
-/

namespace Dnt

open List

/-- The white space of C, and what separates names in the configuration. -/
def separators : List Char :=
  [' ', '\t', '\n', '\x0b', '\x0c', '\r', ',', '=']

def ValidName (name : List Char) : Prop :=
  name ≠ [] ∧ ∀ c ∈ name, c ∉ separators

/-- What the name of an automatic point is made of. -/
@[ext] structure AutomipInput where
  stream : List Char
  level : UInt32
  object : List Char
  post : Bool
  stream_valid : ValidName stream
  object_valid : ValidName object

variable (x : AutomipInput)

def AutomipInput.name : String :=
  oamAutomipName (String.ofList x.stream) x.level.toNat (String.ofList x.object) x.post

/-- The position, with the hyphen behind it. -/
def positionText (post : Bool) : List Char :=
  if post = true then "post-".toList else "pre-".toList

/-- What is between the names of the stream and of the object. -/
def automipTag (level : UInt32) (post : Bool) : List Char :=
  '_' :: 'L' :: (Nat.toDigits 10 level.toNat ++ '_' :: positionText post)

/-- The name is that of no other input, and for both signs of the position the
test says whether it is that of the point. -/
structure Identified (x : AutomipInput) : Prop where
  unique : ∀ y : AutomipInput, y.name = x.name → y = x
  position : ∀ pos : Int, pos ≠ 0 →
    (oamIsAutomipName x.name pos = true ↔ (0 < pos ↔ x.post = true))

/-- Neither a tag nor the other position can be found in the names themselves. -/
structure Unmistakable (x : AutomipInput) : Prop where
  stream : ∀ front level post behind, front ≠ [] →
    x.stream ≠ front ++ (automipTag level post ++ behind)
  object : ∀ front level post behind, behind ≠ [] →
    x.object ≠ front ++ (automipTag level post ++ behind)
  stream_position : ¬ '_' :: positionText (!x.post) <:+: '_' :: x.stream
  object_position : ¬ '_' :: positionText (!x.post) <:+: x.object

variable {a b d e m r t : List Char} {level level' : UInt32} {post post' : Bool}

/-! ### Texts -/

theorem strstr_isSome (needle text : List Char) :
    (strstr needle text).isSome ↔ needle <:+: text := by
  induction text with
  | nil =>
    rw [strstr, infix_nil]
    cases needle with
    | nil | cons c cs => simp
  | cons c cs ih =>
    rw [strstr, infix_cons_iff, ← ih, ← isPrefixOf_iff_prefix]
    by_cases h : needle.isPrefixOf (c :: cs) = true
    · simp [h]
    · simp [h]

/-- A text in front of an underscore that begins with `m`, where `m` has no underscore. -/
theorem append_eq_underscore (hm : '_' ∉ m) (h : m ++ t = a ++ '_' :: r) :
    ∃ f, a = m ++ f ∧ t = f ++ '_' :: r := by
  rcases append_eq_append_iff.mp h with ⟨f, ha, ht⟩ | ⟨f, hf, hr⟩
  · exact ⟨f, ha, ht⟩
  · cases f with
    | nil => exact ⟨[], by simpa using hf.symm, by simpa using hr.symm⟩
    | cons c f =>
      obtain ⟨rfl, -⟩ := cons.inj hr
      exact absurd (hf ▸ mem_append_right a mem_cons_self) hm

theorem underscore_notMem_position (post : Bool) : '_' ∉ positionText post := by
  cases post <;> decide

theorem underscore_notMem_level (level : UInt32) : '_' ∉ 'L' :: Nat.toDigits 10 level.toNat := by
  rw [mem_cons, not_or]
  exact ⟨by decide, Nat.underscore_not_in_toDigits⟩

/-- The positions begin with the same letter and differ in the next one. -/
theorem positionText_append_inj (h : positionText post ++ b = positionText post' ++ d) :
    post = post' ∧ b = d := by
  cases post <;> cases post' <;> simp_all [positionText]

/-- An underscore in a text that begins with a tag: at the beginning, in front of the
position, or behind the tag. -/
theorem tag_append_eq (h : automipTag level post ++ b = e ++ '_' :: r) :
    e = [] ∨ r = positionText post ++ b ∨
      ∃ f, e = automipTag level post ++ f ∧ b = f ++ '_' :: r := by
  cases e with
  | nil => exact .inl rfl
  | cons c e =>
    right
    have hsplit : ('L' :: Nat.toDigits 10 level.toNat) ++ ('_' :: (positionText post ++ b)) =
        e ++ '_' :: r := by
      simpa [automipTag] using (cons.inj h).2
    obtain rfl : '_' = c := (cons.inj h).1
    obtain ⟨f, rfl, hf⟩ := append_eq_underscore (underscore_notMem_level level) hsplit
    cases f with
    | nil => exact .inl (cons.inj hf).2.symm
    | cons c f =>
      obtain ⟨rfl, hf'⟩ := cons.inj hf
      obtain ⟨g, rfl, hb⟩ := append_eq_underscore (underscore_notMem_position post) hf'
      exact .inr ⟨g, by simp [automipTag], hb⟩

theorem tag_append_inj (h : automipTag level post ++ b = automipTag level' post' ++ d) :
    level = level' ∧ post = post' ∧ b = d := by
  have hdigits : Nat.toDigits 10 level.toNat ++ '_' :: (positionText post ++ b) =
      Nat.toDigits 10 level'.toNat ++ '_' :: (positionText post' ++ d) := by
    simpa [automipTag] using h
  obtain ⟨f, hlevel, hf⟩ := append_eq_underscore Nat.underscore_not_in_toDigits hdigits
  cases f with
  | nil =>
    have heq := congrArg (Nat.ofDigitChars 10 · 0) hlevel
    rw [append_nil, Nat.ofDigitChars_ten_toDigits, Nat.ofDigitChars_ten_toDigits] at heq
    exact ⟨UInt32.toNat_inj.mp heq.symm, positionText_append_inj (cons.inj hf).2⟩
  | cons c f =>
    obtain ⟨rfl, -⟩ := cons.inj hf
    exact absurd (hlevel ▸ mem_append_right _ mem_cons_self) Nat.underscore_not_in_toDigits

/-- The second letter of a tag is no position. -/
theorem tag_ne_position : automipTag level post ++ b ≠ '_' :: (positionText post' ++ d) := by
  cases post' <;> simp [automipTag, positionText]

/-- Two tags in a text do not overlap. -/
theorem tag_append_tag (h : automipTag level post ++ b = e ++ (automipTag level' post' ++ d)) :
    e = [] ∨ ∃ f, e = automipTag level post ++ f ∧ b = f ++ (automipTag level' post' ++ d) := by
  rcases tag_append_eq h with hnil | hr | hbehind
  · exact .inl hnil
  · exact absurd (congrArg ('_' :: ·) hr) tag_ne_position
  · exact .inr hbehind

/-! ### Names -/

theorem toList_name :
    x.name.toList = 'o' :: '_' :: (x.stream ++ (automipTag x.level x.post ++ x.object)) := by
  have hlevel : ((x.level.toNat : Int) % 4294967296).toNat = x.level.toNat := by
    have := x.level.toNat_lt
    omega
  unfold AutomipInput.name oamAutomipName
  rw [hlevel, Nat.toString_eq_ofList_toDigits]
  cases x.post <;> simp [automipTag, positionText]

theorem name_inj_iff (y : AutomipInput) :
    y.name = x.name ↔ y.stream ++ (automipTag y.level y.post ++ y.object) =
      x.stream ++ (automipTag x.level x.post ++ x.object) := by
  rw [← String.toList_inj, toList_name, toList_name]
  simp only [cons.injEq, true_and]

theorem ValidName.part (h : ValidName a) (hb : b ≠ []) (hpart : b <:+: a) : ValidName b :=
  ⟨hb, fun c hc => h.2 c (hpart.subset hc)⟩

theorem validName_around (ha : a = [] ∨ ValidName a) (hb : b = [] ∨ ValidName b)
    (level : UInt32) (post : Bool) : ValidName (a ++ (automipTag level post ++ b)) := by
  have hposition : ∀ c ∈ positionText post, c ∉ separators := by
    cases post <;> simp [positionText, separators]
  have htag : ∀ c ∈ automipTag level post, c ∉ separators := by
    intro c hc
    have hdigit : c ∈ Nat.toDigits 10 level.toNat → c ∉ separators := by
      intro hc hsep
      have := Nat.isDigit_of_mem_toDigits (by decide) (by decide) hc
      revert hsep
      simp only [separators, mem_cons, not_mem_nil, or_false]
      rintro (rfl | rfl | rfl | rfl | rfl | rfl | rfl | rfl) <;> exact absurd this (by decide)
    simp only [automipTag, mem_cons, mem_append] at hc
    rcases hc with rfl | rfl | hc | rfl | hc
    · decide
    · decide
    · exact hdigit hc
    · decide
    · exact hposition c hc
  have hpart : ∀ l : List Char, l = [] ∨ ValidName l → ∀ c ∈ l, c ∉ separators := by
    rintro l (rfl | hl) c hc
    · nomatch hc
    · exact hl.2 c hc
  refine ⟨by simp [automipTag], fun c hc => ?_⟩
  rcases mem_append.mp hc with hc | hc
  · exact hpart a ha c hc
  · rcases mem_append.mp hc with hc | hc
    · exact htag c hc
    · exact hpart b hb c hc

/-! ### Other inputs with the same name -/

theorem unique_of_unmistakable {x : AutomipInput} (h : Unmistakable x) {y : AutomipInput}
    (hname : y.name = x.name) : y = x := by
  have hsame (hstream : y.stream = x.stream)
      (hrest : automipTag y.level y.post ++ y.object = automipTag x.level x.post ++ x.object) :
      y = x := by
    obtain ⟨hlevel, hpost, hobject⟩ := tag_append_inj hrest
    exact AutomipInput.ext hstream hlevel hobject hpost
  rcases append_eq_append_iff.mp ((name_inj_iff x y).mp hname) with ⟨e, he, hrest⟩ | ⟨e, he, hrest⟩
  · rcases tag_append_tag hrest with rfl | ⟨f, rfl, -⟩
    · exact hsame (by simpa using he.symm) (by simpa using hrest)
    · exact absurd he (h.stream _ _ _ _ y.stream_valid.1)
  · rcases tag_append_tag hrest with rfl | ⟨f, rfl, hobject⟩
    · exact hsame (by simpa using he) (by simpa using hrest.symm)
    · exact absurd hobject (h.object _ _ _ _ y.object_valid.1)

/-- A tag in the stream gives another input with the name. -/
theorem stream_of_unique {x : AutomipInput} (h : ∀ y : AutomipInput, y.name = x.name → y = x)
    (front : List Char) (level : UInt32) (post : Bool) (behind : List Char) (hfront : front ≠ []) :
    x.stream ≠ front ++ (automipTag level post ++ behind) := by
  intro hstream
  have hvalid : behind = [] ∨ ValidName behind := by
    by_cases hnil : behind = []
    · exact .inl hnil
    · exact .inr (x.stream_valid.part hnil ⟨front ++ automipTag level post, [], by simp [hstream]⟩)
  let y : AutomipInput := ⟨front, level, behind ++ (automipTag x.level x.post ++ x.object), post,
    x.stream_valid.part hfront ⟨[], automipTag level post ++ behind, by simp [hstream]⟩,
    validName_around hvalid (.inr x.object_valid) _ _⟩
  have hy : y = x := h y ((name_inj_iff x y).mpr (by simp [y, hstream]))
  have hlength := congrArg (fun z => z.stream.length) hy
  simp [y, hstream, automipTag] at hlength

/-- A tag in the object gives another input with the name. -/
theorem object_of_unique {x : AutomipInput} (h : ∀ y : AutomipInput, y.name = x.name → y = x)
    (front : List Char) (level : UInt32) (post : Bool) (behind : List Char)
    (hbehind : behind ≠ []) : x.object ≠ front ++ (automipTag level post ++ behind) := by
  intro hobject
  have hvalid : front = [] ∨ ValidName front := by
    by_cases hnil : front = []
    · exact .inl hnil
    · exact .inr (x.object_valid.part hnil ⟨[], automipTag level post ++ behind, by simp [hobject]⟩)
  let y : AutomipInput := ⟨x.stream ++ (automipTag x.level x.post ++ front), level, behind, post,
    validName_around (.inr x.stream_valid) hvalid _ _,
    x.object_valid.part hbehind ⟨front ++ automipTag level post, [], by simp [hobject]⟩⟩
  have hy : y = x := h y ((name_inj_iff x y).mpr (by simp [y, hobject]))
  have hlength := congrArg (fun z => z.object.length) hy
  simp only [y, hobject, automipTag, length_append, length_cons] at hlength
  omega

/-! ### The position -/

theorem oamIsAutomipName_name (pos : Int) (hpos : pos ≠ 0) :
    oamIsAutomipName x.name pos = true ↔
      '_' :: positionText (decide (0 < pos)) <:+: x.name.toList := by
  unfold oamIsAutomipName
  rw [← strstr_isSome]
  simp only [toList_name]
  by_cases hpost : 0 < pos
  · simp [hpost, positionText]
  · have hneg : pos < 0 := by omega
    simp [hpost, hneg, positionText]

theorem own_position : '_' :: positionText x.post <:+: x.name.toList := by
  refine ⟨'o' :: '_' :: (x.stream ++ '_' :: 'L' :: Nat.toDigits 10 x.level.toNat), x.object, ?_⟩
  rw [toList_name]
  simp [automipTag]

/-- The opposite position in a name is in one of its parts. -/
theorem opposite_position_iff :
    '_' :: positionText (!x.post) <:+: x.name.toList ↔
      '_' :: positionText (!x.post) <:+: '_' :: x.stream ∨
        '_' :: positionText (!x.post) <:+: x.object := by
  rw [toList_name]
  constructor
  · rintro ⟨s, t, h⟩
    rw [append_assoc, ← cons_append, ← cons_append] at h
    rcases append_eq_append_iff.mp h with ⟨e, he, hrest⟩ | ⟨e, he, hrest⟩
    · -- it begins in the stream, so it ends there
      cases e with
      | nil => exact absurd hrest.symm tag_ne_position
      | cons c e =>
        obtain ⟨rfl, hrest'⟩ := cons.inj hrest
        obtain ⟨f, rfl, -⟩ := append_eq_underscore (underscore_notMem_position _) hrest'
        have hin : '_' :: positionText (!x.post) <:+: 'o' :: '_' :: x.stream :=
          ⟨s, f, by rw [he]; simp⟩
        rcases infix_cons_iff.mp hin with hfirst | hin
        · exact absurd (cons_prefix_cons.mp hfirst).1 (by decide)
        · exact .inl hin
    · rcases tag_append_eq hrest with rfl | hposition | ⟨f, -, hobject⟩
      · exact absurd hrest tag_ne_position
      · exact absurd (positionText_append_inj hposition).1 (by simp)
      · exact .inr ⟨f, t, by rw [hobject]; simp⟩
  · rintro (hin | hin)
    · exact hin.trans ⟨['o'], automipTag x.level x.post ++ x.object, by simp⟩
    · exact hin.trans ⟨'o' :: '_' :: (x.stream ++ automipTag x.level x.post), [], by simp⟩

/-- The test is right for both signs if the opposite position is nowhere in the name. -/
theorem position_iff :
    (∀ pos : Int, pos ≠ 0 → (oamIsAutomipName x.name pos = true ↔ (0 < pos ↔ x.post = true))) ↔
      ¬ '_' :: positionText (!x.post) <:+: x.name.toList := by
  constructor
  · intro h hin
    have hpos := h (if x.post = true then -1 else 1) (by split <;> decide)
    rw [oamIsAutomipName_name _ _ (by split <;> decide)] at hpos
    cases hpost : x.post with
    | false => simp_all
    | true => simp_all
  · intro h pos hpos
    rw [oamIsAutomipName_name x pos hpos]
    have hown := own_position x
    by_cases hlt : 0 < pos
    · rw [decide_eq_true hlt]
      cases hpost : x.post with
      | false => simp_all
      | true => simp_all
    · rw [decide_eq_false hlt]
      cases hpost : x.post with
      | false => simp_all
      | true => simp_all

/-- A name identifies its point exactly if no part of the input can be taken for a
tag of another one, or for the opposite position. -/
theorem identified_iff : Identified x ↔ Unmistakable x := by
  have hopposite := position_iff x
  rw [opposite_position_iff, not_or] at hopposite
  constructor
  · intro h
    obtain ⟨hstream, hobject⟩ := hopposite.mp h.position
    exact ⟨stream_of_unique h.unique, object_of_unique h.unique, hstream, hobject⟩
  · intro h
    exact ⟨fun y => unique_of_unmistakable h,
      hopposite.mpr ⟨h.stream_position, h.object_position⟩⟩

/-- Two objects and streams with one name, and a point in front of an object that is
taken for one behind it. -/
theorem automip_names_collide :
    oamAutomipName "s" 1 "x_L2_post-y" false = oamAutomipName "s_L1_pre-x" 2 "y" true ∧
      oamIsAutomipName (oamAutomipName "s" 1 "x_post-y" false) 1 = true := by
  decide

end Dnt
