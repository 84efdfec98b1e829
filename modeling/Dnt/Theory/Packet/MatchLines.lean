import Dnt.Core.ConfInterface
import Dnt.Core.ConfPacket

/-!
# What a Match Line Attaches

A stage of a match line names a header and lists conditions for it (`listStage`). A
line that is accepted attaches these matches and nothing else, and no header is used
without having been selected.

A stage without words selects nothing. The source asks for the matches of the header
all the same, and this is a null pointer.

## Main definitions

* `listStage`: The header that a stage names and the matches it lists.
* `Attached`: Headers with the matches they had and those that are listed for them.
* `MatchLineRobust`: A line is rejected, or attaches what it lists, with no bad pointer.

## Theorems

* `processMatchStage_cases`: What can become of a stage.
* `matchLineRobust_iff`: A line is robust just if it has no empty stage, as far as it is read.
* `matchesIndexed_parseMatchLine`: A line that is accepted gives every match the index of its
  header.
-/

namespace Dnt

open List

variable {lib : TextLibrary} {stream : String} {headers headers' : List HeaderDescriptor}
  {stage line : List Char} {h : HeaderDescriptor} {idx : Nat}

/-- The index of the header that a stage names, and the matches it lists. -/
def listStage (lib : TextLibrary) (stream : String) (headers : List HeaderDescriptor)
    (stage : List Char) : Option (Nat × List HeaderMatch) :=
  match words stage with
  | [] => none
  | name :: conditions =>
    let idx := headers.findIdx fun h => h.name = name
    headers[idx]?.bind fun h =>
      (conditions.mapM (readMatch lib stream h idx)).toOption.map fun ms => (idx, ms)

/-- The headers after a stage. Its header has to have matches then. The list is reversed
each time, and the new matches are the last ones. -/
def attachStage (lib : TextLibrary) (stream : String) (headers : List HeaderDescriptor)
    (stage : List Char) : Option (List HeaderDescriptor) := do
  let (idx, ms) ← listStage lib stream headers stage
  let h ← headers[idx]?
  let ms := h.matchList.reverse ++ ms
  if ms = [] then none else some (headers.set idx { h with matchList := ms })

/-! ### Errors are messages -/

/-- No bad pointer is used. -/
def NoFault {α : Type} (x : Compile α) : Prop :=
  x ≠ .error .fault

section Rules

variable {α β : Type}

@[simp] theorem noFault_ok (a : α) : NoFault (.ok a : Compile α) := nofun

@[simp] theorem noFault_pure (a : α) : NoFault (pure a : Compile α) := nofun

@[simp] theorem noFault_rejected (msg : String) : NoFault (.error (.rejected msg) : Compile α) :=
  fun h => nomatch h

@[simp] theorem noFault_bind (x : Compile α) (f : α → Compile β) :
    NoFault (x >>= f) ↔ NoFault x ∧ ∀ a, x = .ok a → NoFault (f a) := by
  cases x with
  | error e =>
    refine ⟨fun h => ⟨fun he => h ?_, fun a ha => (nomatch ha)⟩, fun h he => h.1 ?_⟩
    all_goals
      cases he
      rfl
  | ok a =>
    refine ⟨fun h => ⟨nofun, fun b hb => ?_⟩, fun h => h.2 a rfl⟩
    cases hb
    exact h

@[simp] theorem noFault_map (f : α → β) (x : Compile α) : NoFault (f <$> x) ↔ NoFault x := by
  cases x with
  | error e => exact ⟨fun h he => h (by cases he; rfl), fun h he => h (by cases he; rfl)⟩
  | ok a => exact ⟨fun _ => nofun, fun _ => nofun⟩

@[simp] theorem noFault_orThrow (o : Option α) (e : CompileError) :
    NoFault (orThrow o e) ↔ o = none → NoFault (.error e : Compile α) := by
  cases o with
  | none => exact ⟨fun h _ => h, fun h => h rfl⟩
  | some a => exact ⟨fun _ hno => (nomatch hno), fun _ => nofun⟩

@[simp] theorem noFault_require (c : Prop) [Decidable c] (e : CompileError) :
    NoFault (require c e) ↔ ¬ c → NoFault (.error e : Compile Unit) := by
  unfold require
  split_ifs with hc
  · exact ⟨fun _ hno => absurd hc hno, fun _ => nofun⟩
  · exact ⟨fun h _ => h, fun h => h hc⟩

end Rules

/-! ### One stage -/

theorem noFault_readNumber (bits : Nat) (string : String) :
    NoFault (readNumber lib bits string) := by
  unfold readNumber constantError
  split_ifs
  · simp
  · simp
  · simp only
    split_ifs
    · simp
    · simp
    · split <;> simp

theorem noFault_readAddress (label name : String) (n : Nat) (pton : String → Option (Octets n))
    (val : Value) (string : String) : NoFault (readAddress lib label name n pton val string) := by
  have hlength (maxlen : Nat) : NoFault (readPrefixLength lib label maxlen string) := by
    unfold readPrefixLength constantError
    split <;> simp
  simp [readAddress, constantError, hlength]

theorem noFault_readConstant (val : Value) (proto : ProtocolID) (type : ProtocolFieldType)
    (string : String) : NoFault (readConstant lib val proto type string) := by
  have hnumber : NoFault (readNumberConstant lib val string) := by
    simp [readNumberConstant, numberConstant, constantError, noFault_readNumber]
  cases type with
  | unknown => exact noFault_rejected _
  | macAddress | ipv4Address | ipv6Address => exact noFault_readAddress _ _ _ _ _ _
  | nextHeader =>
    simp only [readConstant]
    split_ifs
    · simp [readNexthdrConstant, numberConstant, constantError]
    · exact hnumber
  | _ => exact hnumber

theorem noFault_readMatch (token : String) : NoFault (readMatch lib stream h idx token) := by
  simp [readMatch, matchError, noFault_readConstant]

/-- The conditions of a stage, when its header has been selected. Each match goes in front of
the others. -/
theorem foldlM_conditions (hget : headers[idx]? = some h) (conditions : List String) :
    conditions.foldlM (processMatchToken lib) ⟨stream, headers, some idx⟩ =
      (conditions.mapM (readMatch lib stream h idx)).map fun ms =>
        ⟨stream, headers.set idx { h with matchList := ms.reverse ++ h.matchList }, some idx⟩ := by
  induction conditions generalizing headers h with
  | nil =>
    obtain ⟨hlt, rfl⟩ := List.getElem?_eq_some_iff.mp hget
    have hsame : headers.set idx headers[idx] = headers := List.set_getElem_self hlt
    simp only [foldlM_nil, mapM_nil, Except.map, pure, Except.pure, reverse_nil,
      nil_append, hsame]
  | cons token conditions ih =>
    have hlt : idx < headers.length := (List.getElem?_eq_some_iff.mp hget).1
    rw [List.foldlM_cons, List.mapM_cons, processMatchToken]
    simp only [hget, orThrow, bind, Except.bind]
    cases hm : readMatch lib stream h idx token with
    | error e => rfl
    | ok m =>
      simp only [pure, Except.pure]
      -- the header has one more match now, which `readMatch` does not look at
      rw [ih (h := { h with matchList := m :: h.matchList }) (by simp [hlt])]
      have hread : readMatch lib stream { h with matchList := m :: h.matchList } idx =
          readMatch lib stream h idx := rfl
      rw [hread]
      cases conditions.mapM (readMatch lib stream h idx) with
      | error e => rfl
      | ok ms => simp [Except.map]

theorem noFault_mapM {f : String → Compile HeaderMatch} (hf : ∀ token, NoFault (f token))
    (tokens : List String) : NoFault (tokens.mapM f) := by
  induction tokens with
  | nil => simp
  | cons token tokens ih => simp [List.mapM_cons, hf, ih]

theorem forall_mem_mapM {f : String → Compile HeaderMatch} {P : HeaderMatch → Prop}
    (hf : ∀ token m, f token = .ok m → P m) {tokens : List String} {ms : List HeaderMatch}
    (h : tokens.mapM f = .ok ms) : ∀ m ∈ ms, P m := by
  induction tokens generalizing ms with
  | nil =>
    cases h
    exact forall_mem_nil _
  | cons token tokens ih =>
    rw [List.mapM_cons] at h
    obtain ⟨m, hm, h⟩ := bind_eq_ok.mp h
    obtain ⟨ms', hms', h⟩ := bind_eq_ok.mp h
    cases h
    exact forall_mem_cons.mpr ⟨hf token m hm, ih hms'⟩

/-- A stage without words is a null pointer. Any other one is accepted just if its matches can
be attached, and rejected if not. -/
theorem processMatchStage_cases (s : MatchState) (stage : List Char) :
    (words stage = [] ∧ processMatchStage lib s stage = .error .fault) ∨ words stage ≠ [] ∧
      ((∃ hs current, attachStage lib s.stream s.headers stage = some hs ∧
          processMatchStage lib s stage = .ok ⟨s.stream, hs, current⟩) ∨
        (attachStage lib s.stream s.headers stage = none ∧
          ∃ msg, processMatchStage lib s stage = .error (.rejected msg))) := by
  unfold processMatchStage attachStage listStage foreachTokens
  cases hwords : words stage with
  | nil => exact .inl ⟨rfl, rfl⟩
  | cons name conditions =>
    refine .inr ⟨by simp, ?_⟩
    generalize hidx : (s.headers.findIdx fun h => h.name = name) = idx
    simp only [List.foldlM_cons, processMatchToken, hidx]
    cases hget : s.headers[idx]? with
    | none =>
      -- no header has this name
      have hle := getElem?_eq_none_iff.mp hget
      refine .inr ⟨rfl, "stream " ++ s.stream ++ " match refers to non-existing header '" ++
        name ++ "'", ?_⟩
      simp [require, Nat.not_lt.mpr hle, bind, Except.bind]
    | some h =>
      have hlt : idx < s.headers.length := (List.getElem?_eq_some_iff.mp hget).1
      have hset (ms : List HeaderMatch) :
          (s.headers.set idx { h with matchList := ms })[idx]? = some { h with matchList := ms } :=
        getElem?_set_self hlt
      simp only [require, hlt, if_true, bind, Except.bind, pure, Except.pure,
        foldlM_conditions hget, Option.bind_some]
      cases hread : conditions.mapM (readMatch lib s.stream h idx) with
      | error e =>
        cases e with
        | fault => exact absurd hread (noFault_mapM noFault_readMatch conditions)
        | rejected msg => exact .inr ⟨rfl, msg, rfl⟩
      | ok ms =>
        simp only [Except.map, Except.toOption, Option.map_some, Option.bind_some, hget, orThrow,
          hset, reverse_append, reverse_reverse, set_set]
        by_cases hempty : h.matchList.reverse ++ ms = []
        · have hnone : (ms.reverse ++ h.matchList).isEmpty = true := by
            simpa [and_comm] using hempty
          exact .inr ⟨if_pos hempty, _, by simp only [hnone]; rfl⟩
        · have hsome : (ms.reverse ++ h.matchList).isEmpty = false :=
            Bool.eq_false_iff.mpr fun hnone => hempty (by simpa [and_comm] using hnone)
          exact .inl ⟨_, some idx, if_neg hempty, by simp only [hsome]; rfl⟩

/-! ### All stages -/

/-- A stage without words behind stages that can be attached. -/
def EmptyStageReached (lib : TextLibrary) (stream : String) (headers : List HeaderDescriptor)
    (pieces : List (List Char)) : Prop :=
  ∃ before stage after, pieces = before ++ stage :: after ∧ words stage = [] ∧
    ∃ hs, before.foldlM (attachStage lib stream) headers = some hs

theorem emptyStageReached_cons_iff {pieces : List (List Char)} (hwords : words stage ≠ []) :
    EmptyStageReached lib stream headers (stage :: pieces) ↔
      ∃ hs, attachStage lib stream headers stage = some hs ∧
        EmptyStageReached lib stream hs pieces := by
  constructor
  · rintro ⟨before, empty, after, hpieces, hempty, hs, hbefore⟩
    cases before with
    | nil => cases hpieces; exact absurd hempty hwords
    | cons first before =>
      cases hpieces
      obtain ⟨hs₁, hfirst, hrest⟩ := Option.bind_eq_some_iff.mp hbefore
      exact ⟨hs₁, hfirst, before, empty, after, rfl, hempty, hs, hrest⟩
  · rintro ⟨hs₁, hfirst, before, empty, after, rfl, hempty, hs, hrest⟩
    refine ⟨stage :: before, empty, after, rfl, hempty, hs, ?_⟩
    exact Option.bind_eq_some_iff.mpr ⟨hs₁, hfirst, hrest⟩

theorem foldlM_processMatchStage (pieces : List (List Char)) (s : MatchState) :
    (pieces.foldlM (processMatchStage lib) s = .error .fault ↔
      EmptyStageReached lib s.stream s.headers pieces) ∧
    ∀ s', pieces.foldlM (processMatchStage lib) s = .ok s' →
      pieces.foldlM (attachStage lib s.stream) s.headers = some s'.headers := by
  induction pieces generalizing s with
  | nil =>
    refine ⟨iff_of_false nofun ?_, fun s' hs' => by cases hs'; rfl⟩
    rintro ⟨before, stage, after, hpieces, -⟩
    simp at hpieces
  | cons stage pieces ih =>
    simp only [List.foldlM_cons]
    obtain ⟨hwords, hstage⟩ | ⟨hwords, h⟩ := @processMatchStage_cases lib s stage
    · rw [hstage]
      exact ⟨iff_of_true rfl ⟨[], stage, pieces, rfl, hwords, s.headers, rfl⟩, nofun⟩
    · rw [emptyStageReached_cons_iff hwords]
      obtain ⟨hs, current, hattach, hstage⟩ | ⟨hattach, msg, hstage⟩ := h
      · obtain ⟨hfault, hok⟩ := ih ⟨s.stream, hs, current⟩
        rw [hstage, hattach]
        refine ⟨hfault.trans ?_, hok⟩
        simp
      · rw [hstage, hattach]
        exact ⟨iff_of_false nofun (fun ⟨_, hno, _⟩ => nomatch hno), nofun⟩

/-! ### What is attached -/

def stripped (headers : List HeaderDescriptor) : List HeaderDescriptor :=
  headers.map fun h => { h with matchList := [] }

def matchesAt (headers : List HeaderDescriptor) (i : Nat) : List HeaderMatch :=
  (headers[i]?.map HeaderDescriptor.matchList).getD []

/-- Every header has the matches that are listed for it, and those it had before. -/
def Attached (headers headers' : List HeaderDescriptor) (listed : List (Nat × List HeaderMatch)) :
    Prop :=
  stripped headers' = stripped headers ∧
    ∀ i, (matchesAt headers' i).Perm
      (matchesAt headers i ++ (listed.filter fun l => l.1 = i).flatMap Prod.snd)

/-- What a stage lists does not depend on the matches there are. -/
theorem listStage_stripped (headers : List HeaderDescriptor) :
    listStage lib stream (stripped headers) stage = listStage lib stream headers stage := by
  unfold listStage stripped
  cases words stage with
  | nil => rfl
  | cons name conditions =>
    simp only [findIdx_map, Function.comp_def, getElem?_map, Option.bind_map]
    rfl

theorem attached_attachStage (hattach : attachStage lib stream headers stage = some headers') :
    ∃ l, listStage lib stream headers stage = some l ∧ Attached headers headers' [l] := by
  obtain ⟨⟨idx, ms⟩, hlist, hattach⟩ := Option.bind_eq_some_iff.mp hattach
  obtain ⟨h, hget, hattach⟩ := Option.bind_eq_some_iff.mp hattach
  simp only [Option.ite_none_left_eq_some, Option.some_inj] at hattach
  obtain ⟨-, rfl⟩ := hattach
  obtain ⟨hlt, rfl⟩ := List.getElem?_eq_some_iff.mp hget
  refine ⟨_, hlist, ?_, fun i => ?_⟩
  · have hsame := @List.set_getElem_self _ (stripped headers) idx (by simpa [stripped] using hlt)
    simpa [stripped, map_set] using hsame
  · by_cases hi : idx = i
    · subst hi
      simpa [matchesAt, hlt] using (reverse_perm headers[idx].matchList).append_right ms
    · simp [matchesAt, hi]

theorem Attached.trans {headers'' : List HeaderDescriptor} {l l' : List (Nat × List HeaderMatch)}
    (h : Attached headers headers' l) (h' : Attached headers' headers'' l') :
    Attached headers headers'' (l ++ l') := by
  refine ⟨h'.1.trans h.1, fun i => (h'.2 i).trans ?_⟩
  rw [filter_append, flatMap_append, ← append_assoc]
  exact (h.2 i).append_right _

theorem attached_foldlM {pieces : List (List Char)}
    (hattach : pieces.foldlM (attachStage lib stream) headers = some headers') :
    ∃ listed, List.Forall₂ (fun stage l => listStage lib stream headers stage = some l) pieces
        listed ∧ Attached headers headers' listed := by
  induction pieces generalizing headers with
  | nil =>
    cases hattach
    exact ⟨[], .nil, rfl, fun i => by simp⟩
  | cons stage pieces ih =>
    obtain ⟨hs, hfirst, hrest⟩ := Option.bind_eq_some_iff.mp hattach
    obtain ⟨l, hlist, hattached⟩ := attached_attachStage hfirst
    obtain ⟨listed, hlisted, hall⟩ := ih hrest
    refine ⟨l :: listed, .cons hlist ?_, hattached.trans hall⟩
    -- the first stage has changed nothing but matches
    refine hlisted.imp fun stage l h => ?_
    rwa [← listStage_stripped, hattached.1, listStage_stripped] at h

theorem headerIdx_readMatch {token : String} {m : HeaderMatch}
    (hread : readMatch lib stream h idx token = .ok m) : m.field.headerIdx = idx := by
  obtain ⟨_, -, hread⟩ := bind_eq_ok.mp hread
  obtain ⟨f, -, hread⟩ := bind_eq_ok.mp hread
  obtain ⟨value, -, hread⟩ := bind_eq_ok.mp hread
  obtain ⟨comparator, -, hread⟩ := bind_eq_ok.mp hread
  cases hread
  rfl

theorem headerIdx_listStage {l : Nat × List HeaderMatch}
    (hlist : listStage lib stream headers stage = some l) : ∀ m ∈ l.2, m.field.headerIdx = l.1 := by
  unfold listStage at hlist
  cases hwords : words stage with
  | nil =>
    rw [hwords] at hlist
    cases hlist
  | cons name conditions =>
    simp only [hwords] at hlist
    generalize (headers.findIdx fun h => h.name = name) = idx at hlist
    obtain ⟨h, -, hlist⟩ := Option.bind_eq_some_iff.mp hlist
    obtain ⟨ms, hms, rfl⟩ := Option.map_eq_some_iff.mp hlist
    cases hread : conditions.mapM (readMatch lib stream h idx) with
    | error e =>
      rw [hread] at hms
      cases hms
    | ok ms' =>
      rw [hread] at hms
      cases hms
      exact forall_mem_mapM (fun token m => headerIdx_readMatch) hread

/-- The line is rejected, or attaches to each header just the matches that are listed for it.
No header is used that is not selected. -/
def MatchLineRobust (lib : TextLibrary) (stream : String) (headers : List HeaderDescriptor)
    (line : List Char) : Prop :=
  match parseMatchLine lib stream headers line with
  | .ok headers' => ∃ listed, List.Forall₂
      (fun stage l => listStage lib stream headers stage = some l) (stages line) listed ∧
        Attached headers headers' listed
  | .error (.rejected _) => True
  | .error .fault => False

/-- All lines are handled well but those with a stage without words, behind stages that are
accepted. -/
theorem matchLineRobust_iff (lib : TextLibrary) (stream : String)
    (headers : List HeaderDescriptor) (line : List Char) :
    MatchLineRobust lib stream headers line ↔
      ¬ EmptyStageReached lib stream headers (stages line) := by
  obtain ⟨hfault, hok⟩ :=
    @foldlM_processMatchStage lib (stages line) ⟨stream, headers, none⟩
  simp only [MatchLineRobust, parseMatchLine, foreachStages]
  cases hfold : (stages line).foldlM (processMatchStage lib) ⟨stream, headers, none⟩ with
  | ok s =>
    refine iff_of_true (attached_foldlM (hok s hfold)) fun hempty => ?_
    rw [hfault.mpr hempty] at hfold
    cases hfold
  | error e =>
    rw [hfold] at hfault
    cases e with
    | rejected msg => exact iff_of_true trivial fun hempty => nomatch hfault.mpr hempty
    | fault => exact iff_of_false id fun hno => hno (hfault.mp rfl)

theorem mem_matchesAt {k : Nat} {m : HeaderMatch} (hget : headers[k]? = some h) :
    m ∈ matchesAt headers k ↔ m ∈ h.matchList := by
  rw [matchesAt, hget]
  rfl

/-- The streams of the configuration are built from the headers of such lines. -/
theorem matchesIndexed_parseMatchLine (hindexed : MatchesIndexed headers)
    (hline : parseMatchLine lib stream headers line = .ok headers') : MatchesIndexed headers' := by
  obtain ⟨s, hfold, hs⟩ := bind_eq_ok.mp hline
  cases hs
  obtain ⟨listed, hlisted, -, hperm⟩ := attached_foldlM
    ((foldlM_processMatchStage (stages line) ⟨stream, headers, none⟩).2 s hfold)
  have hstages : ∀ l ∈ listed, ∃ stage, listStage lib stream headers stage = some l := by
    clear hperm
    generalize stages line = pieces at hlisted
    induction hlisted with
    | nil => exact forall_mem_nil _
    | cons hstage _ ih => exact forall_mem_cons.mpr ⟨⟨_, hstage⟩, ih⟩
  intro k h hget m hm
  have hmem := (hperm k).subset ((mem_matchesAt hget).mpr hm)
  rcases mem_append.mp hmem with hold | hnew
  · -- a match that the header had before
    cases hbefore : headers[k]? with
    | none => simp [matchesAt, hbefore] at hold
    | some h₀ => exact hindexed k h₀ hbefore m ((mem_matchesAt hbefore).mp hold)
  · obtain ⟨l, hl, hm⟩ := mem_flatMap.mp hnew
    obtain ⟨hl, hk⟩ := mem_filter.mp hl
    obtain ⟨stage, hstage⟩ := hstages l hl
    exact (headerIdx_listStage hstage m hm).trans (of_decide_eq_true hk)

/-- A comma in front is an empty stage, which is reached whatever follows. -/
theorem matchLine_empty_stage :
    ¬ MatchLineRobust
      ⟨fun _ => ⟨2048, 4, false⟩, fun _ => none, fun _ => none, fun _ => none, fun _ => none⟩
      "s" [⟨"eth", .eth, []⟩] ",eth type=2048".toList := by
  intro h
  exact h

end Dnt
