import Dnt.Core.Header

/-!
# Reading Configuration Lines

The line splitters of `conf_utils.c` and its helpers for single words. The source walks a
buffer, overwriting separators with zeros and calling back for each piece; the callback
can stop the walk. Here the pieces are a list, and a callback that can fail is a monadic
fold over it, which stops at the same place.

## Main definitions

* `stages`, `words`: The stages of a line, and the words of a stage.
* `foreachTokens`: The walk over words.
* `numberOctets`: The octets of a number that is written to a field.

## Theorems

* `foldlM_invariant`: What every call of a walk keeps holds at its end.
-/

namespace Dnt

variable {α β ε σ : Type}

/-- Space, tab, newline, vertical tab, form feed and carriage return. -/
def isSpace (c : Char) : Bool :=
  c.toNat = 32 || (9 ≤ c.toNat && c.toNat ≤ 13)

/-- The words of a text, when `word` has been read of the next one. -/
def wordsFrom : List Char → List Char → List (List Char)
  | [], [] => []
  | c :: word, [] => [c :: word]
  | word, c :: cs =>
    if isSpace c = true then
      if word.isEmpty = true then wordsFrom [] cs else word :: wordsFrom [] cs
    else wordsFrom (word ++ [c]) cs

def words (text : List Char) : List String :=
  (wordsFrom [] text).map String.ofList

def commaSplit : List Char → List Char → List (List Char)
  | stage, [] => [stage]
  | stage, c :: cs => if c = ',' then stage :: commaSplit [] cs else commaSplit (stage ++ [c]) cs

/-- The stages `foreach_stages` finds. White space in front of a stage is
skipped, and nothing is left after a final comma. -/
def stages (line : List Char) : List (List Char) :=
  let pieces := (commaSplit [] line).map (List.dropWhile isSpace)
  if pieces.getLast? = some [] then pieces.dropLast else pieces

/-- Call back for each word, as long as the callback succeeds. -/
def foreachTokens {ε σ : Type} (cb : σ → String → Except ε σ) (s : σ) (stage : List Char) :
    Except ε σ :=
  (words stage).foldlM cb s

/-- Call back for each stage, as long as the callback succeeds. -/
def foreachStages {ε σ : Type} (cb : σ → List Char → Except ε σ) (s : σ) (line : List Char) :
    Except ε σ :=
  (stages line).foldlM cb s

/-- The offset at which `needle` first occurs in a text. -/
def strstr (needle : List Char) : List Char → Option Nat
  | [] => if needle.isEmpty = true then some 0 else none
  | c :: cs =>
    if needle.isPrefixOf (c :: cs) = true then some 0 else (strstr needle cs).map (· + 1)

def splitOnce (sep : Char) (text : String) : Option (String × String) :=
  match text.toList.dropWhile (· ≠ sep) with
  | [] => none
  | _ :: behind =>
    if behind.contains sep = true then none
    else some (String.ofList (text.toList.takeWhile (· ≠ sep)), String.ofList behind)

/-- `key=val`. -/
def parseAssignment (assign : String) : Option (String × String) :=
  splitOnce '=' assign

/-- `headername.fieldname`. -/
def parseFieldname (field : String) : Option (String × String) :=
  splitOnce '.' field

def headerTypeFromName (name : String) : String :=
  String.ofList (name.toList.takeWhile (· ≠ '_'))

/-- The octets of a number with `numBits` bits, the last one first, when the
lower `offset` bits are written already. -/
def numberOctets (num numBits : Nat) : Nat → Nat → List UInt8
  | _, 0 => []
  | offset, n + 1 =>
    (if offset < numBits then UInt8.ofNat (num >>> offset) else 0) ::
      numberOctets num numBits (offset + 8) n

/-- A number as a value with the bits of a field, if it has no more bits than
the field. -/
def prepareConstantNumber (bitoffset bitcount num : Nat) : Option Value :=
  let numBits := num.log2 + 1
  if numBits > bitcount then none
  else
    let bitsTotal := bitoffset % 8 + bitcount
    let bytesTotal := (bitsTotal + 7) / 8
    let offset := bytesTotal * 8 - bitsTotal
    let octets :=
      UInt8.ofNat (num <<< offset) :: numberOctets num numBits (8 - offset) (bytesTotal - 1)
    some ⟨octets.reverse, bitoffset % 8, bitcount⟩

/-- The loop of `prepare_constant_number`: the octets it writes, each with its
index in the buffer. The index is unsigned. -/
def constantLoop (num numBits offset idx : Nat) : List (Nat × UInt8) :=
  if offset < numBits then
    (idx, UInt8.ofNat (num >>> offset)) ::
      constantLoop num numBits (offset + 8) (u32 (idx + 4294967295))
  else []
  termination_by numBits - offset

/-- `prepare_constant_number` as the length of its buffer and what it writes. -/
def constantWrites (bitoffset bitcount num : Nat) : Option (Nat × List (Nat × UInt8)) :=
  let numBits := num.log2 + 1
  if numBits > bitcount then none
  else
    let bitsTotal := bitoffset % 8 + bitcount
    let bytesTotal := (bitsTotal + 7) / 8
    let offset := bytesTotal * 8 - bitsTotal
    let idx := u32 (bytesTotal + 4294967295)
    some (bytesTotal, (idx, UInt8.ofNat (num <<< offset)) ::
      constantLoop num numBits (8 - offset) (u32 (idx + 4294967295)))

def writtenBuffer (len : Nat) (writes : List (Nat × UInt8)) : List UInt8 :=
  writes.foldl (fun buf w => buf.set w.1 w.2) (List.replicate len 0)

theorem bind_eq_ok {x : Except ε α} {f : α → Except ε β} {b : β} :
    (x >>= f) = .ok b ↔ ∃ a, x = .ok a ∧ f a = .ok b := by
  cases x with
  | error e =>
    simp only [bind, Except.bind, reduceCtorEq, false_and, exists_false]
  | ok a =>
    simp only [bind, Except.bind, Except.ok.injEq, exists_eq_left']

theorem map_eq_ok {f : α → β} {x : Except ε α} {b : β} :
    f <$> x = .ok b ↔ ∃ a, x = .ok a ∧ f a = b := by
  cases x with
  | error e =>
    simp only [Functor.map, Except.map, reduceCtorEq, false_and, exists_false]
  | ok a =>
    simp only [Functor.map, Except.map, Except.ok.injEq, exists_eq_left']

/-- A value that is read and stored. What holds of the record for every value read holds after. -/
theorem of_bind_ok {P : β → Prop} {f : α → β} {x : Except ε α} {b : β}
    (h : (x >>= fun a => .ok (f a)) = .ok b) (hf : ∀ a, x = .ok a → P (f a)) : P b := by
  obtain ⟨a, hread, heq⟩ := bind_eq_ok.mp h
  cases heq
  exact hf a hread

theorem foldlM_invariant_mem {P : σ → Prop} {cb : σ → α → Except ε σ} {l : List α}
    (hstep : ∀ s, ∀ x ∈ l, ∀ s', P s → cb s x = .ok s' → P s') (s : σ) {s' : σ} (hs : P s)
    (h : l.foldlM cb s = .ok s') : P s' := by
  induction l generalizing s with
  | nil =>
    cases h
    exact hs
  | cons x l ih =>
    rw [List.foldlM_cons] at h
    rcases bind_eq_ok.mp h with ⟨s₁, hs₁, h⟩
    have htail : ∀ s, ∀ y ∈ l, ∀ s', P s → cb s y = .ok s' → P s' :=
      fun s y hy => hstep s y (List.mem_cons_of_mem x hy)
    exact ih htail s₁ (hstep s x List.mem_cons_self s₁ hs hs₁) h

theorem foldlM_invariant {P : σ → Prop} {cb : σ → α → Except ε σ}
    (hstep : ∀ s x s', P s → cb s x = .ok s' → P s') {l : List α} {s s' : σ} (hs : P s)
    (h : l.foldlM cb s = .ok s') : P s' :=
  foldlM_invariant_mem (fun s x _ => hstep s x) s hs h

example : words "  eth0  vlan5 ".toList = ["eth0", "vlan5"] := by decide

end Dnt
