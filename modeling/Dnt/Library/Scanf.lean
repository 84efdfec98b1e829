import Mathlib.Data.List.TakeWhile

/-!
# Scanning a Text by a Format

The part of `sscanf` that reads words and decimal numbers. A format is a list of
directives, carried out until one of them fails. A word goes to the destination its
directive names, and no width limits it.

## Main definitions

* `Scanf.Directive`: One item of a format.
* `Scanf.scan`: Carrying out directives on a text.
* `Scanf.Plain`: A format with nothing but words and white space before its last word.

## Theorems

* `Scanf.words_scan`: A plain format stores the words of the text in their order.
-/

namespace Scanf

/-- White space, as `isspace` has it in the C locale. -/
def isSpace (c : UInt8) : Bool :=
  c == 32 || (9 ≤ c && c ≤ 13)

def isDigit (c : UInt8) : Bool :=
  48 ≤ c && c ≤ 57

/-- One item of a format, where `δ` names the places for words. -/
inductive Directive (δ : Type*) where
  /-- Any amount of white space, none included. -/
  | white
  /-- The character itself. -/
  | literal (c : UInt8)
  /-- `%s`. -/
  | word (dst : δ)
  /-- A decimal number, such as `%u` or `%hhd`. -/
  | number
  /-- `%n`. -/
  | consumed
  deriving DecidableEq, Repr

structure Result (δ : Type*) where
  words : List (δ × List UInt8)
  numbers : List Int
  consumed : Option Nat
  /-- The text was over too early. -/
  inputFailure : Bool
  deriving DecidableEq, Repr

variable {δ : Type*}

def Result.ended (inputFailure : Bool) : Result δ :=
  ⟨[], [], none, inputFailure⟩

/-- What `sscanf` returns. There is no number if the text was over before anything
was converted. -/
def Result.count (r : Result δ) : Option Nat :=
  let conversions := r.words.length + r.numbers.length
  if r.inputFailure = true ∧ conversions = 0 then none else some conversions

def digitsValue (digits : List UInt8) : Nat :=
  digits.foldl (fun n c => 10 * n + (c.toNat - 48)) 0

def scanNumber (text : List UInt8) : Option (Int × List UInt8) :=
  let (negative, unsigned) :=
    match text with
    | 45 :: rest => (true, rest)
    | 43 :: rest => (false, rest)
    | _ => (false, text)
  let digits := unsigned.takeWhile isDigit
  if digits = [] then none
  else
    let value : Int := digitsValue digits
    some (if negative then -value else value, unsigned.dropWhile isDigit)

/-- Carry out the directives on what is left of a text of length `total`. -/
def scan (total : Nat) : List (Directive δ) → List UInt8 → Result δ
  | [], _ => .ended false
  | .white :: ds, text => scan total ds (text.dropWhile isSpace)
  | .literal _ :: _, [] => .ended true
  | .literal c :: ds, x :: text => if x = c then scan total ds text else .ended false
  | .word dst :: ds, text =>
    let rest := text.dropWhile isSpace
    if rest = [] then .ended true
    else
      let r := scan total ds (rest.dropWhile fun c => !isSpace c)
      { r with words := (dst, rest.takeWhile fun c => !isSpace c) :: r.words }
  | .number :: ds, text =>
    let rest := text.dropWhile isSpace
    if rest = [] then .ended true
    else
      match scanNumber rest with
      | none => .ended false
      | some (value, rest) =>
        let r := scan total ds rest
        { r with numbers := value :: r.numbers }
  | .consumed :: ds, text =>
    { scan total ds text with consumed := some (total - text.length) }

def Result.word [DecidableEq δ] (r : Result δ) (dst : δ) : Option (List UInt8) :=
  (r.words.find? fun e => e.1 = dst).map Prod.snd

/-- `sscanf`. -/
def sscanf (text : List UInt8) (format : List (Directive δ)) : Result δ :=
  scan text.length format text

def literals (cs : List UInt8) : List (Directive δ) :=
  cs.map Directive.literal

open List

theorem scan_literals (total : Nat) (cs : List UInt8) (ds : List (Directive δ))
    (text : List UInt8) : scan total (literals cs ++ ds) (cs ++ text) = scan total ds text := by
  induction cs with
  | nil => rfl
  | cons c cs ih =>
    simp only [literals, map_cons, cons_append, scan, if_true]
    exact ih

/-! ## Words -/

def words (text : List UInt8) : List (List UInt8) :=
  (text.splitOnP isSpace).filter fun w => !w.isEmpty

theorem words_nil : words [] = [] := rfl

theorem words_cons_of_isSpace (c : UInt8) (text : List UInt8) (h : isSpace c = true) :
    words (c :: text) = words text := by
  unfold words
  rw [splitOnP_cons_eq_if_modifyHead, if_pos h]
  rfl

theorem words_dropWhile_isSpace (text : List UInt8) :
    words (text.dropWhile isSpace) = words text := by
  induction text with
  | nil => rfl
  | cons c text ih =>
    by_cases h : isSpace c = true
    · rw [dropWhile_cons_of_pos h, words_cons_of_isSpace c text h]
      exact ih
    · rw [dropWhile_cons_of_neg h]

theorem words_cons_of_not_isSpace (c : UInt8) (text : List UInt8) (h : isSpace c = false) :
    words (c :: text) = (c :: text).takeWhile (fun c => !isSpace c) ::
        words ((c :: text).dropWhile fun c => !isSpace c) := by
  have hfirst : ∀ x ∈ (c :: text).takeWhile (fun c => !isSpace c), isSpace x = false := by
    intro x hx
    have := mem_takeWhile_imp hx
    simpa using this
  have hne : ((c :: text).takeWhile fun c => !isSpace c) ≠ [] := by
    rw [takeWhile_cons_of_pos (by rw [h]; rfl)]
    exact cons_ne_nil _ _
  have hsplit := takeWhile_append_dropWhile (p := fun c => !isSpace c) (l := c :: text)
  generalize (c :: text).takeWhile (fun c => !isSpace c) = word at hfirst hne hsplit ⊢
  cases hrest : (c :: text).dropWhile fun c => !isSpace c with
  | nil =>
    rw [hrest, append_nil] at hsplit
    rw [← hsplit, words, splitOnP_eq_singleton hfirst, words_nil]
    simp [hne]
  | cons sep rest =>
    -- what ends the word is white space
    have hsep : isSpace sep = true := by
      have := head?_dropWhile_not (fun c => !isSpace c) (c :: text)
      rw [hrest] at this
      simpa using this
    rw [hrest] at hsplit
    rw [← hsplit, words_cons_of_isSpace sep rest hsep, words,
      splitOnP_append_cons_of_forall_mem hfirst sep hsep]
    simp [hne, words]

/-! ## Plain formats -/

def destinations (ds : List (Directive δ)) : List δ :=
  ds.filterMap fun
    | .word dst => some dst
    | _ => none

/-- A format in which only words and white space come before a word. -/
def Plain : List (Directive δ) → Prop
  | [] => True
  | .literal _ :: ds => destinations ds = []
  | .number :: ds => destinations ds = []
  | .white :: ds => Plain ds
  | .word _ :: ds => Plain ds
  | .consumed :: ds => Plain ds

theorem words_scan_of_destinations_eq_nil (total : Nat) (ds : List (Directive δ))
    (text : List UInt8) (h : destinations ds = []) : (scan total ds text).words = [] := by
  induction ds generalizing text with
  | nil => rfl
  | cons d ds ih =>
    cases d with
    | white => exact ih _ h
    | literal c =>
      cases text with
      | nil => rfl
      | cons x text =>
        simp only [scan]
        split_ifs
        · exact ih _ h
        · rfl
    | word dst => exact absurd h (cons_ne_nil _ _)
    | number =>
      simp only [scan]
      split_ifs
      · rfl
      · cases scanNumber (text.dropWhile isSpace) with
        | none => rfl
        | some found => exact ih _ h
    | consumed => exact ih _ h

theorem words_scan (total : Nat) (ds : List (Directive δ)) (h : Plain ds) (text : List UInt8) :
    (scan total ds text).words = (destinations ds).zip (words text) := by
  induction ds generalizing text with
  | nil => rfl
  | cons d ds ih =>
    cases d with
    | white =>
      simp only [scan]
      rw [ih h, words_dropWhile_isSpace]
      rfl
    | literal c =>
      have hnone : destinations (.literal c :: ds) = [] := h
      rw [words_scan_of_destinations_eq_nil _ _ _ hnone, hnone, zip_nil_left]
    | number =>
      have hnone : destinations (Directive.number :: ds) = [] := h
      rw [words_scan_of_destinations_eq_nil _ _ _ hnone, hnone, zip_nil_left]
    | consumed =>
      simp only [scan]
      exact ih h text
    | word dst =>
      rw [← words_dropWhile_isSpace text]
      simp only [scan]
      cases hrest : text.dropWhile isSpace with
      | nil =>
        rw [if_pos rfl, words_nil, zip_nil_right]
        rfl
      | cons c rest =>
        have hc : isSpace c = false := by
          have := head?_dropWhile_not isSpace text
          rw [hrest] at this
          exact this
        rw [if_neg (cons_ne_nil _ _), words_cons_of_not_isSpace c rest hc]
        simp only [ih h]
        rfl

end Scanf
