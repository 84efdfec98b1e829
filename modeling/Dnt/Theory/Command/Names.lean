import Dnt.Library.Mealy
import Dnt.Core.OamCommand

/-!
# Names in Commands

Every name of a command is scanned by a format without a width. Nothing on the way
shortens the words.

## Main definitions

* `InNameBuffers`: Every octet that is stored is inside its buffer.
* `NamesFit`, `LineFits`: The words that have buffers are shorter than these.

## Theorems

* `scan_inNameBuffers_iff`: The names of a text stay inside just if they fit.
* `commandInput_inNameBuffers_iff`: What comes from a connection or in a message is stored
  inside the buffers just if every name in it that is looked at fits its buffer.
-/

namespace Dnt

open Mealy

/-- Every octet that is stored is inside its buffer. -/
def InNameBuffers (stores : List (NameBuffer × Store UInt8)) : Prop :=
  ∀ e ∈ stores, ∀ i, e.2.Covers i → i < e.1.size

/-- The first words of a text are shorter than the buffers, which leaves room for
the closing zero. -/
def NamesFit (buffers : List NameBuffer) (text : List UInt8) : Prop :=
  ∀ e ∈ buffers.zip (Scanf.words text), e.2.length < e.1.size

open List

theorem inNameBuffers_nil : InNameBuffers [] :=
  fun _ he => absurd he not_mem_nil

theorem nameStores_inNameBuffers_iff (scanned : Scanf.Result NameBuffer) :
    InNameBuffers (nameStores scanned) ↔ ∀ e ∈ scanned.words, e.2.length < e.1.size := by
  simp only [InNameBuffers, nameStores, forall_mem_map]
  refine forall₂_congr fun e _ => ?_
  constructor
  · -- the closing zero is the last octet
    intro h
    refine h e.2.length ⟨Nat.zero_le _, ?_⟩
    simp only [length_append, length_singleton]
    omega
  · rintro h i ⟨-, hi⟩
    simp only [length_append, length_singleton] at hi
    omega

theorem scan_inNameBuffers_iff {total : Nat} {format : List (Scanf.Directive NameBuffer)}
    (hplain : Scanf.Plain format) (text : List UInt8) :
    InNameBuffers (nameStores (Scanf.scan total format text)) ↔
      NamesFit (Scanf.destinations format) text := by
  rw [nameStores_inNameBuffers_iff, Scanf.words_scan total format hplain]
  rfl

/-! ## Requests -/

/-- The names of a request fit, where a return interface may come first. -/
def RequestFits (text : List UInt8) : Prop :=
  if text.head? = some 64 then NamesFit [.ifaceName, .startName, .mepStop] text.tail
  else NamesFit [.startName, .mepStop] text

theorem plainFormat_inNameBuffers_iff (text : List UInt8) :
    InNameBuffers (nameStores (Scanf.sscanf text plainFormat)) ↔
      NamesFit [.startName, .mepStop] text :=
  scan_inNameBuffers_iff (by exact rfl) text

theorem parseRequest_inNameBuffers_iff (type : String) {text : List UInt8} :
    InNameBuffers (nameStores (parseRequest type text).scanned) ↔ RequestFits text := by
  unfold parseRequest RequestFits
  by_cases hat : text.head? = some 64
  · rw [if_pos hat, if_pos hat]
    obtain ⟨rest, rfl⟩ := head?_eq_some_iff.mp hat
    -- the format goes on behind the sign
    exact scan_inNameBuffers_iff (by exact rfl) rest
  · rw [if_neg hat, if_neg hat]
    exact plainFormat_inNameBuffers_iff text

theorem parsePingCommand_inNameBuffers_iff (text : List UInt8) (allowReturniface : Bool) :
    InNameBuffers (nameStores (parsePingCommand text allowReturniface).scanned) ↔
      (text.head? = some 64 ∧ allowReturniface = false) ∨ RequestFits text := by
  unfold parsePingCommand
  by_cases h : text.head? = some 64 ∧ allowReturniface = false
  · rw [if_pos h]
    exact iff_of_true inNameBuffers_nil (.inl h)
  · rw [if_neg h, parseRequest_inNameBuffers_iff, or_iff_right h]

/-! ## Lines -/

def FormatFits (command : Command) (line : List UInt8) : Prop :=
  match command.format with
  | none => True
  | some (text, arguments) =>
    NamesFit (Scanf.destinations arguments) (line.drop (asciiOctets text).length)

def LineFits (line : List UInt8) : Prop :=
  match Command.ofLine line with
  | .ping => RequestFits (line.drop 4)
  | .rping => RequestFits (line.drop 5)
  | .notifTrigger => NamesFit [.startName, .mepStop] (line.drop 13)
  | .rlist => RequestFits (line.drop 5)
  | command => FormatFits command line

theorem Command.format_plain {command : Command} {text : String}
    {arguments : List (Scanf.Directive NameBuffer)}
    (h : command.format = some (text, arguments)) : Scanf.Plain arguments := by
  cases command
  all_goals cases h
  all_goals simp [Scanf.Plain, Scanf.destinations]

theorem format_text {line : List UInt8} {text : String}
    {arguments : List (Scanf.Directive NameBuffer)}
    (h : (Command.ofLine line).format = some (text, arguments)) :
    ∃ rest, line = asciiOctets text ++ rest := by
  have htests : ∀ t ∈ lineTests,
      (t.2.format.all fun f => decide (t.1 = LineTest.begins f.1)) = true := by decide
  unfold Command.ofLine at h
  cases hfind : lineTests.find? fun t => t.1.holds line with
  | none =>
    rw [hfind] at h
    cases h
  | some t =>
    rw [hfind] at h
    have htest := htests t (mem_of_find?_eq_some hfind)
    rw [h, Option.all_some, decide_eq_true_iff] at htest
    have hholds := find?_some hfind
    rw [htest] at hholds
    obtain ⟨rest, hrest⟩ := isPrefixOf_iff_prefix.mp hholds
    exact ⟨rest, hrest.symm⟩

theorem formatScan_inNameBuffers_iff {line : List UInt8} {command : Command}
    (h : Command.ofLine line = command) :
    InNameBuffers (nameStores (formatScan command line)) ↔ FormatFits command line := by
  unfold formatScan FormatFits
  cases hformat : command.format with
  | none => exact iff_of_true inNameBuffers_nil trivial
  | some format =>
    obtain ⟨text, arguments⟩ := format
    obtain ⟨rest, rfl⟩ := format_text (by rw [h, hformat])
    simp only [Scanf.sscanf, Scanf.scan_literals, drop_left]
    exact scan_inNameBuffers_iff (command.format_plain hformat) rest

theorem lineScan_inNameBuffers_iff (line : List UInt8) :
    InNameBuffers (nameStores (lineScan line)) ↔ LineFits line := by
  unfold lineScan LineFits
  cases hcommand : Command.ofLine line with
  | ping =>
    have hnot : ¬ ((line.drop 4).head? = some 64 ∧ true = false) := by
      simp
    exact (parsePingCommand_inNameBuffers_iff _ true).trans (or_iff_right hnot)
  | rping => exact parseRequest_inNameBuffers_iff "rping"
  | notifTrigger => exact plainFormat_inNameBuffers_iff _
  | rlist => exact parseRequest_inNameBuffers_iff "rlist"
  | _ => exact formatScan_inNameBuffers_iff hcommand

/-! ## Connections and messages -/

/-- The names in what is read from a connection fit, if they are looked at. -/
def ChunkFits (conn : CommandConnection) (chunk : List UInt8) : Prop :=
  conn.closed = false → chunk ≠ [] →
    ∀ line, commandLine conn.lastCommand chunk = some line → LineFits line

/-- The names in the command of a message fit, if it is read. -/
def RpingFits (js : JsonObject) : Prop :=
  ∀ command, rpingCommand js = some command → command.head? = some 64 ∨ RequestFits command

theorem commandStep_inNameBuffers_iff (conn : CommandConnection) (chunk : List UInt8) :
    InNameBuffers (commandStep conn chunk).2 ↔ ChunkFits conn chunk := by
  unfold commandStep ChunkFits
  by_cases hclosed : conn.closed = true
  · rw [if_pos hclosed]
    refine iff_of_true inNameBuffers_nil fun h => ?_
    rw [hclosed] at h
    cases h
  by_cases hchunk : chunk = []
  · rw [if_neg hclosed, if_pos hchunk]
    exact iff_of_true inNameBuffers_nil fun _ h => absurd hchunk h
  rw [if_neg hclosed, if_neg hchunk]
  cases hline : commandLine conn.lastCommand chunk with
  | none =>
    refine iff_of_true inNameBuffers_nil fun _ _ line h => ?_
    cases h
  | some line =>
    simp only [Option.some.injEq, forall_eq', Bool.of_not_eq_true hclosed, hchunk,
      ne_eq, not_false_eq_true, forall_const]
    exact lineScan_inNameBuffers_iff line

theorem rpingStores_inNameBuffers_iff (js : JsonObject) :
    InNameBuffers (rpingStores js) ↔ RpingFits js := by
  unfold rpingStores RpingFits
  cases rpingCommand js with
  | none =>
    refine iff_of_true inNameBuffers_nil fun command h => ?_
    cases h
  | some command =>
    simp only [Option.some.injEq, forall_eq']
    exact (parsePingCommand_inNameBuffers_iff command false).trans (by rw [and_iff_left rfl])

/-- Over every run of a connection, and for every message, all that is stored is
inside its buffer exactly if all names are shorter than theirs. -/
theorem commandInput_inNameBuffers_iff (conn : CommandConnection) (chunks : List (List UInt8))
    (js : JsonObject) :
    (EveryStep commandStep (fun c chunk => InNameBuffers (commandStep c chunk).2) conn
        chunks ↔
      EveryStep commandStep ChunkFits conn chunks) ∧
    (InNameBuffers (rpingStores js) ↔ RpingFits js) := by
  refine ⟨?_, rpingStores_inNameBuffers_iff js⟩
  exact everyStep_iff_of_invariant (fun _ => True) _ _ (fun _ _ _ _ => trivial)
    (fun c chunk _ => commandStep_inNameBuffers_iff c chunk) trivial chunks

/-! ## A name that is too long -/

def longName : List UInt8 :=
  List.replicate 64 97

def rpingMessage : JsonObject :=
  [("code", .string "request"), ("return", .object []), ("stream", .string "stream"),
   ("session", .number 0),
   ("command", .string "aaaaaaaaaaaaaaaaaaaaaaaaaaaaaaaaaaaaaaaaaaaaaaaaaaaaaaaaaaaaaaaa stop 1")]

theorem longName_not_inNameBuffers :
    (asciiOctets "mp " ++ longName).length ≤ 254 ∧
    ¬ InNameBuffers (commandStep ⟨[], false⟩ (asciiOctets "mp " ++ longName)).2 ∧
    ¬ InNameBuffers (rpingStores rpingMessage) := by
  refine ⟨by decide, ?_, ?_⟩
  · have hstores : (commandStep ⟨[], false⟩ (asciiOctets "mp " ++ longName)).2 =
        [(.mpname, ⟨0, longName ++ [0]⟩)] := by decide +kernel
    rw [hstores]
    intro h
    exact absurd (h _ mem_cons_self 64 ⟨by decide, by decide⟩) (by decide)
  · have hstores : (NameBuffer.startName, (⟨0, longName ++ [0]⟩ : Store UInt8)) ∈
        rpingStores rpingMessage := by decide +kernel
    intro h
    exact absurd (h _ hstores 64 ⟨by decide, by decide⟩) (by decide)

end Dnt
