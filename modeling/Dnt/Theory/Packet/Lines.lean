import Mathlib.Data.List.TakeWhile
import Dnt.Core.ConfPacket

/-!
# The Grammar of a Packet Line

A packet line is a list of stages with commas between them, and each stage is one
word. A word should name a protocol in front of its first underscore, but for any other
word the payload is taken, and the test that is to notice asks for a negative number.

## Main definitions

* `OneWordStages`: The accepted texts and their words, without cutting the text up.
* `PacketLineRight`: Just lists of names with protocols are accepted, as what they say.

## Theorems

* `packetLineRight_iff`: A line of words is read right just if all of them are in the table.
-/

namespace Dnt

variable {text line : List Char} {name stream : String} {names : List String}

/-! ### Words -/

variable {headers headers' : List HeaderDescriptor}

open List

theorem wordsFrom_spaces (hspace : ∀ c ∈ text, isSpace c = true) (rest : List Char) :
    wordsFrom [] (text ++ rest) = wordsFrom [] rest := by
  induction text with
  | nil => rfl
  | cons c text ih =>
    obtain ⟨hc, htext⟩ := forall_mem_cons.mp hspace
    rw [cons_append, wordsFrom, if_pos hc, if_pos isEmpty_nil, ih htext]

theorem wordsFrom_word (hword : ∀ c ∈ text, isSpace c = false) (acc rest : List Char) :
    wordsFrom acc (text ++ rest) = wordsFrom (acc ++ text) rest := by
  induction text generalizing acc with
  | nil => rw [append_nil, nil_append]
  | cons c text ih =>
    obtain ⟨hc, htext⟩ := forall_mem_cons.mp hword
    rw [cons_append, wordsFrom, if_neg (by rw [hc]; exact Bool.false_ne_true), ih htext,
      append_assoc, singleton_append]

/-- There is nothing in a text but white space if there are no words in it. -/
theorem wordsFrom_eq_nil_iff (acc : List Char) :
    wordsFrom acc text = [] ↔ acc = [] ∧ ∀ c ∈ text, isSpace c = true := by
  induction text generalizing acc with
  | nil => cases acc <;> simp [wordsFrom]
  | cons c text ih =>
    by_cases hc : isSpace c = true
    · cases acc with
      | nil => simp [wordsFrom, hc, ih]
      | cons a acc => simp [wordsFrom, hc]
    · simp [wordsFrom, hc, ih]

/-- A text that is one word, with white space around it. -/
def OneWord (text : List Char) (name : String) : Prop :=
  name ≠ "" ∧ (∀ c ∈ name.toList, isSpace c = false) ∧
    ∃ before after, text = before ++ (name.toList ++ after) ∧
      (∀ c ∈ before, isSpace c = true) ∧ ∀ c ∈ after, isSpace c = true

/-- The rest of the word that has been begun, when it is the only one. -/
theorem exists_rest_of_wordsFrom {acc w : List Char} (hacc : acc ≠ [])
    (h : wordsFrom acc text = [w]) : ∃ more after, text = more ++ after ∧ w = acc ++ more ∧
      (∀ c ∈ more, isSpace c = false) ∧ ∀ c ∈ after, isSpace c = true := by
  induction text generalizing acc with
  | nil =>
    refine ⟨[], [], rfl, ?_, by simp, by simp⟩
    cases acc with
    | nil => exact absurd rfl hacc
    | cons a acc => simpa [wordsFrom] using h.symm
  | cons c text ih =>
    by_cases hc : isSpace c = true
    · -- the word is over, and nothing may follow it
      have hword : acc :: wordsFrom [] text = [w] := by
        cases acc with
        | nil => exact absurd rfl hacc
        | cons a acc => simpa [wordsFrom, hc] using h
      obtain ⟨rfl, hrest⟩ := cons_eq_cons.mp hword
      refine ⟨[], c :: text, rfl, (append_nil _).symm, by simp, ?_⟩
      exact forall_mem_cons.mpr ⟨hc, ((wordsFrom_eq_nil_iff []).mp hrest).2⟩
    · have hstep : wordsFrom (acc ++ [c]) text = [w] := by
        cases acc with
        | nil => exact absurd rfl hacc
        | cons a acc => simpa [wordsFrom, hc] using h
      obtain ⟨more, after, rfl, hw, hmore, hafter⟩ := ih (by simp) hstep
      refine ⟨c :: more, after, rfl, by simpa using hw, ?_, hafter⟩
      exact forall_mem_cons.mpr ⟨Bool.eq_false_iff.mpr hc, hmore⟩

theorem words_eq_singleton_iff : words text = [name] ↔ OneWord text name := by
  constructor
  · intro h
    induction text with
    | nil => simp [words, wordsFrom] at h
    | cons c text ih =>
      by_cases hc : isSpace c = true
      · -- white space in front of the word
        have hskip : words (c :: text) = words text := by simp [words, wordsFrom, hc]
        obtain ⟨hne, hword, before, after, rfl, hbefore, hafter⟩ := ih (hskip ▸ h)
        refine ⟨hne, hword, c :: before, after, rfl, ?_, hafter⟩
        exact forall_mem_cons.mpr ⟨hc, hbefore⟩
      · obtain ⟨w, hw, hname⟩ : ∃ w, wordsFrom [c] text = [w] ∧ String.ofList w = name := by
          simpa [words, wordsFrom, hc, map_eq_singleton_iff] using h
        obtain ⟨more, after, rfl, rfl, hmore, hafter⟩ := exists_rest_of_wordsFrom (by simp) hw
        subst hname
        refine ⟨by simp [String.ext_iff], ?_, [], after, by simp, by simp, hafter⟩
        simpa using ⟨Bool.eq_false_iff.mpr hc, hmore⟩
  · rintro ⟨hne, hword, before, after, rfl, hbefore, hafter⟩
    have hrest : wordsFrom name.toList after = [name.toList] := by
      cases hchars : name.toList with
      | nil => exact absurd (String.toList_eq_nil_iff.mp hchars) hne
      | cons c cs =>
        cases after with
        | nil => rfl
        | cons a after =>
          obtain ⟨ha, hafter⟩ := forall_mem_cons.mp hafter
          have hnone : wordsFrom [] after = [] := (wordsFrom_eq_nil_iff []).mpr ⟨rfl, hafter⟩
          simp [wordsFrom, ha, hnone]
    rw [words, wordsFrom_spaces hbefore, wordsFrom_word hword, nil_append, hrest,
      map_singleton, String.ofList_toList]

theorem words_dropWhile (text : List Char) : words (text.dropWhile isSpace) = words text := by
  have hspace : ∀ c ∈ text.takeWhile isSpace, isSpace c = true := fun c hc =>
    mem_takeWhile_imp hc
  have h := wordsFrom_spaces hspace (text.dropWhile isSpace)
  rw [takeWhile_append_dropWhile] at h
  rw [words, words, h]

/-! ### Stages -/

theorem commaSplit_append (htext : ',' ∉ text) (acc rest : List Char) :
    commaSplit acc (text ++ rest) = commaSplit (acc ++ text) rest := by
  induction text generalizing acc with
  | nil => rw [append_nil, nil_append]
  | cons c text ih =>
    rw [mem_cons, not_or] at htext
    obtain ⟨hc, htext⟩ := htext
    rw [cons_append, commaSplit, if_neg (Ne.symm hc), ih htext, append_assoc, singleton_append]

theorem commaSplit_ne_nil (acc rest : List Char) : commaSplit acc rest ≠ [] := by
  induction rest generalizing acc with
  | nil => simp [commaSplit]
  | cons c rest ih =>
    rw [commaSplit]
    split_ifs
    · simp
    · exact ih _

theorem stages_of_notMem (htext : ',' ∉ text) :
    stages text = if text.dropWhile isSpace = [] then [] else [text.dropWhile isSpace] := by
  have hsplit := commaSplit_append htext [] []
  rw [append_nil, nil_append, commaSplit] at hsplit
  simp only [stages, hsplit, map_singleton, getLast?_singleton, Option.some_inj]
  rfl

theorem stages_append (htext : ',' ∉ text) (rest : List Char) :
    stages (text ++ ',' :: rest) = text.dropWhile isSpace :: stages rest := by
  have hsplit : commaSplit [] (text ++ ',' :: rest) = text :: commaSplit [] rest := by
    rw [commaSplit_append htext, nil_append, commaSplit, if_pos rfl]
  obtain ⟨piece, pieces, hpieces⟩ := exists_cons_of_ne_nil (commaSplit_ne_nil [] rest)
  simp only [stages, hsplit, hpieces, map_cons, getLast?_cons_cons]
  split_ifs
  · rfl
  · rfl

/-- One or more stages of one word each, and perhaps a comma behind the last one. -/
inductive OneWordStages : List Char → List String → Prop
  | last {stage : List Char} {name : String} (hcomma : ',' ∉ stage) (hword : OneWord stage name) :
    OneWordStages stage [name]
  | trailing {stage spaces : List Char} {name : String} (hcomma : ',' ∉ stage)
    (hword : OneWord stage name) (hspace : ∀ c ∈ spaces, isSpace c = true) :
    OneWordStages (stage ++ ',' :: spaces) [name]
  | cons {stage rest : List Char} {name : String} {names : List String} (hcomma : ',' ∉ stage)
    (hword : OneWord stage name) (hrest : OneWordStages rest names) :
    OneWordStages (stage ++ ',' :: rest) (name :: names)

abbrev WordOfEach (pieces : List (List Char)) (names : List String) : Prop :=
  List.Forall₂ (fun stage name => words stage = [name]) pieces names

theorem stages_of_spaces (hspace : ∀ c ∈ text, isSpace c = true) : stages text = [] := by
  have hcomma : ',' ∉ text := fun hmem => absurd (hspace _ hmem) (by decide)
  rw [stages_of_notMem hcomma, if_pos (dropWhile_eq_nil_iff.mpr hspace)]

theorem stages_of_oneWord (hcomma : ',' ∉ text) (hword : OneWord text name) :
    stages text = [text.dropWhile isSpace] := by
  rw [stages_of_notMem hcomma, if_neg]
  intro hnil
  have hwords := words_dropWhile text
  rw [hnil, words_eq_singleton_iff.mpr hword] at hwords
  exact absurd hwords (by simp [words, wordsFrom])

theorem wordOfEach_of_oneWordStages (h : OneWordStages line names) :
    names ≠ [] ∧ WordOfEach (stages line) names := by
  have hhead {stage : List Char} {name : String} (hword : OneWord stage name) :
      words (stage.dropWhile isSpace) = [name] :=
    (words_dropWhile stage).trans (words_eq_singleton_iff.mpr hword)
  induction h with
  | last hcomma hword =>
    rw [stages_of_oneWord hcomma hword]
    exact ⟨by simp, .cons (hhead hword) .nil⟩
  | trailing hcomma hword hspace =>
    rw [stages_append hcomma, stages_of_spaces hspace]
    exact ⟨by simp, .cons (hhead hword) .nil⟩
  | cons hcomma hword _ ih =>
    rw [stages_append hcomma]
    exact ⟨by simp, .cons (hhead hword) ih.2⟩

theorem oneWordStages_of_wordOfEach {line : List Char} {names : List String} (hne : names ≠ [])
    (h : WordOfEach (stages line) names) : OneWordStages line names := by
  by_cases hcomma : ',' ∈ line
  · -- the first comma ends the first stage
    obtain ⟨stage, rest, rfl, hstage⟩ := eq_append_cons_of_mem hcomma
    rw [stages_append hstage] at h
    cases h with
    | cons hword hrest =>
      rw [words_dropWhile, words_eq_singleton_iff] at hword
      rename_i name names
      cases names with
      | cons second names =>
        exact .cons hstage hword (oneWordStages_of_wordOfEach (by simp) hrest)
      | nil =>
        -- nothing is left behind the last comma
        have hnil : stages rest = [] := List.forall₂_nil_right_iff.mp hrest
        refine .trailing hstage hword fun c hc => ?_
        by_cases hmore : ',' ∈ rest
        · obtain ⟨front, back, rfl, hfront⟩ := eq_append_cons_of_mem hmore
          simp [stages_append hfront] at hnil
        · rw [stages_of_notMem hmore] at hnil
          split_ifs at hnil with hdrop
          exact dropWhile_eq_nil_iff.mp hdrop c hc
  · rw [stages_of_notMem hcomma] at h
    split_ifs at h with hdrop
    · exact absurd (List.forall₂_nil_left_iff.mp h) hne
    · cases h with
      | cons hword hrest =>
        rw [words_dropWhile, words_eq_singleton_iff] at hword
        rw [List.forall₂_nil_left_iff.mp hrest]
        exact .last hcomma hword
  termination_by line.length

theorem oneWordStages_iff :
    OneWordStages line names ↔ names ≠ [] ∧ WordOfEach (stages line) names :=
  ⟨wordOfEach_of_oneWordStages, fun h => oneWordStages_of_wordOfEach h.1 h.2⟩

/-! ### Packet lines -/

def packetHeader (name : String) : HeaderDescriptor :=
  ⟨name, protocolIdFromType (headerTypeFromName name), []⟩

theorem processPacketToken_none (name : String) :
    processPacketToken stream none name = .ok (some (packetHeader name)) := by
  simp only [processPacketToken, require, Int.natCast_nonneg, if_true]
  rfl

theorem processPacketStage_ok_iff {stage : List Char} :
    processPacketStage stream headers stage = .ok headers' ↔
      ∃ name, words stage = [name] ∧ headers' = packetHeader name :: headers := by
  unfold processPacketStage foreachTokens
  match words stage with
  | [] => simp [orThrow, bind, Except.bind, pure, Except.pure]
  | [name] =>
    simp [processPacketToken_none, orThrow, bind, Except.bind, pure, Except.pure, eq_comm]
  | first :: second :: more =>
    obtain ⟨e, he⟩ : ∃ e, processPacketToken stream (some (packetHeader first)) second = .error e :=
      ⟨_, rfl⟩
    simp [processPacketToken_none, he, bind, Except.bind]

theorem foldlM_processPacketStage_iff {pieces : List (List Char)} :
    pieces.foldlM (processPacketStage stream) headers = .ok headers' ↔
      ∃ names, WordOfEach pieces names ∧
        headers' = (names.map packetHeader).reverse ++ headers := by
  induction pieces generalizing headers with
  | nil => simp [pure, Except.pure, eq_comm]
  | cons stage pieces ih =>
    simp only [foldlM_cons, bind_eq_ok, processPacketStage_ok_iff, ih, List.forall₂_cons_left_iff]
    constructor
    · rintro ⟨_, ⟨name, hword, rfl⟩, names, hwords, rfl⟩
      exact ⟨name :: names, ⟨name, names, hword, hwords, rfl⟩, by simp⟩
    · rintro ⟨_, ⟨name, names, hword, hwords, rfl⟩, rfl⟩
      exact ⟨_, ⟨name, hword, rfl⟩, names, hwords, by simp⟩

/-- Which lines are accepted, and the headers that are made. -/
theorem parsePacketLine_ok_iff : parsePacketLine stream line = .ok headers ↔
      ∃ names, OneWordStages line names ∧ headers = names.map packetHeader := by
  simp only [parsePacketLine, foreachStages, bind_eq_ok, foldlM_processPacketStage_iff,
    oneWordStages_iff]
  constructor
  · rintro ⟨_, ⟨names, hwords, rfl⟩, _, hsome, hheaders⟩
    refine ⟨names, ⟨?_, hwords⟩, by simpa [pure, Except.pure, eq_comm] using hheaders⟩
    rintro rfl
    cases hsome
  · rintro ⟨names, ⟨hne, hwords⟩, rfl⟩
    refine ⟨_, ⟨names, hwords, rfl⟩, (), ?_, by simp [pure, Except.pure]⟩
    simpa [require] using hne

/-- The header has the name, and the protocol in front of its first underscore. -/
def Describes (name : String) (h : HeaderDescriptor) : Prop :=
  h.name = name ∧ (protocolFromId h.id).name = headerTypeFromName name ∧ h.matchList = []

/-- The line is accepted if it is a list of names with protocols of the table and in no
other case, and what is returned are the headers with these, in their order. -/
def PacketLineRight (stream : String) (line : List Char) : Prop :=
  ∀ headers, parsePacketLine stream line = .ok headers ↔
    ∃ names, OneWordStages line names ∧ List.Forall₂ Describes names headers

theorem protocolIdFromType_name (id : ProtocolID) :
    protocolIdFromType (protocolFromId id).name = id := by
  cases id <;> decide

theorem describes_packetHeader_iff :
    Describes name (packetHeader name) ↔ protocolTypeValid (headerTypeFromName name) = true := by
  simp only [Describes, packetHeader, true_and, and_true, protocolTypeValid, any_eq_true,
    decide_eq_true_eq]
  constructor
  · intro h
    generalize protocolIdFromType (headerTypeFromName name) = id at h
    exact ⟨id, by cases id <;> decide, h⟩
  · rintro ⟨id, -, hid⟩
    rw [← hid, protocolIdFromType_name]

theorem Describes.eq {h : HeaderDescriptor} (hd : Describes name h) : h = packetHeader name := by
  obtain ⟨hname, hid, hmatch⟩ := hd
  rcases h with ⟨name', id, matchList⟩
  simp only [packetHeader, HeaderDescriptor.mk.injEq] at *
  exact ⟨hname, by rw [← hid, protocolIdFromType_name], hmatch⟩

theorem forall₂_describes :
    List.Forall₂ Describes names headers ↔ headers = names.map packetHeader ∧
      ∀ name ∈ names, protocolTypeValid (headerTypeFromName name) = true := by
  induction names generalizing headers with
  | nil => simp
  | cons name names ih =>
    simp only [List.forall₂_cons_left_iff, ih, map_cons, forall_mem_cons]
    constructor
    · rintro ⟨h, _, hd, ⟨rfl, hvalid⟩, rfl⟩
      have := hd.eq
      subst this
      exact ⟨rfl, describes_packetHeader_iff.mp hd, hvalid⟩
    · rintro ⟨rfl, hname, hvalid⟩
      exact ⟨_, _, describes_packetHeader_iff.mpr hname, ⟨rfl, hvalid⟩, rfl⟩

/-- A line is read as the table says if and only if it is not a list of words at all, or
all of its words are in the table. -/
theorem packetLineRight_iff (stream : String) (line : List Char) :
    PacketLineRight stream line ↔ ∀ names, OneWordStages line names →
      ∀ name ∈ names, protocolTypeValid (headerTypeFromName name) = true := by
  simp only [PacketLineRight, parsePacketLine_ok_iff, forall₂_describes]
  constructor
  · intro h names hline
    obtain ⟨names', -, hsame, hvalid⟩ := (h _).mp ⟨names, hline, rfl⟩
    have hnames : names = names' := by
      refine map_injective_iff.mpr (fun a b hab => ?_) hsame
      exact congrArg HeaderDescriptor.name hab
    rwa [hnames]
  · intro h headers
    constructor
    · rintro ⟨names, hline, hheaders⟩
      exact ⟨names, hline, hheaders, h names hline⟩
    · rintro ⟨names, hline, hheaders, -⟩
      exact ⟨names, hline, hheaders⟩

/-- A word that is not in the table is accepted, as payload. -/
theorem packetLine_unknown : ¬ PacketLineRight "s" "foo".toList := by
  intro h
  obtain ⟨names, hline, hheaders⟩ := (h [⟨"foo", .payload, []⟩]).mp rfl
  rw [forall₂_describes] at hheaders
  cases names with
  | nil => cases hheaders.1
  | cons name names =>
    have hname : "foo" = name := congrArg HeaderDescriptor.name (cons_eq_cons.mp hheaders.1).1
    have hvalid := hheaders.2 name mem_cons_self
    rw [← hname] at hvalid
    exact absurd hvalid (by decide)

end Dnt
