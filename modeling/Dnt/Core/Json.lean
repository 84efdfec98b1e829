import Mathlib.Data.Rat.Defs
import Dnt.Core.HashMap

/-!
# JSON Values

The values of `lib/parsers/json.c`, in which maintenance messages and
notifications are written. A number is a double in the source; the parser and
the serializer refuse those that are not finite, and the rest are rationals.

## Main definitions

* `JsonValue`, `JsonObject`: Values, and objects as hash maps.
* `JsonLibrary`: The conversions to and from text are not embedded, and any pair of
  functions that does their job is one. What is assumed of it is said where it is used.

## Theorems

* `hashmapFind_jsonRemoveAll`: What is found after several removals.
-/

namespace Dnt

inductive JsonValue where
  | null
  | bool (b : Bool)
  | number (x : ℚ)
  | string (s : String)
  | array (vals : List JsonValue)
  | object (members : List (String × JsonValue))

abbrev JsonObject : Type :=
  HashMap JsonValue

/-- `json_parse` and `json_serialize`. Texts are octets without the closing
zero, and no value is written as the empty text. -/
structure JsonLibrary where
  jsonParse : List UInt8 → Option JsonValue
  jsonSerialize : JsonValue → Option (List UInt8)
  jsonSerialize_ne_nil : ∀ v text, jsonSerialize v = some text → text ≠ []

def asciiOctets (s : String) : List UInt8 :=
  s.toList.map fun c => UInt8.ofNat c.toNat

/-- An object that was written is read as an object with the same members. -/
def JsonLibrary.ParsesBack (lib : JsonLibrary) : Prop :=
  ∀ members text, lib.jsonSerialize (.object members) = some text →
    ∃ members', lib.jsonParse text = some (.object members') ∧
      ∀ key, hashmapFind members' key = hashmapFind members key

variable (js : JsonObject)

def jsonObjectGetString (key : String) : Option String :=
  match hashmapFind js key with
  | some (.string s) => some s
  | _ => none

def jsonObjectGetNumber (key : String) : Option ℚ :=
  match hashmapFind js key with
  | some (.number x) => some x
  | _ => none

def jsonObjectGetArray (key : String) : Option (List JsonValue) :=
  match hashmapFind js key with
  | some (.array vals) => some vals
  | _ => none

def jsonObjectGetObject (key : String) : Option JsonObject :=
  match hashmapFind js key with
  | some (.object members) => some members
  | _ => none

def jsonInsertAll (members : List (String × JsonValue)) : JsonObject :=
  members.foldl (fun js e => hashmapInsert js e.1 e.2) js

def jsonRemoveAll (keys : List String) : JsonObject :=
  keys.foldl hashmapRemove js

theorem hashmapFind_jsonInsertAll {members : List (String × JsonValue)}
    {key : String} (hkeys : (members.map Prod.fst).Nodup) :
    hashmapFind (jsonInsertAll js members) key =
      (hashmapFind members key).or (hashmapFind js key) := by
  induction members generalizing js with
  | nil => rfl
  | cons e rest ih =>
    rw [List.map_cons, List.nodup_cons] at hkeys
    have hrest := ih (hashmapInsert js e.1 e.2) hkeys.2
    simp only [jsonInsertAll, List.foldl_cons] at hrest ⊢
    rw [hrest, hashmapFind_insert]
    simp only [hashmapFind]
    by_cases he : e.1 = key
    · -- no later insertion overrides this one
      have hnone : hashmapFind rest key = none :=
        hashmapFind_eq_none fun x hx hkey =>
          hkeys.1 (List.mem_map.mpr ⟨x, hx, hkey.trans he.symm⟩)
      rw [if_pos he, if_pos he, hnone]
      rfl
    · rw [if_neg he, if_neg he]

theorem hashmapFind_jsonRemoveAll (keys : List String) (key : String) :
    hashmapFind (jsonRemoveAll js keys) key =
      if key ∈ keys then none else hashmapFind js key := by
  induction keys generalizing js with
  | nil => rw [if_neg List.not_mem_nil]; rfl
  | cons k rest ih =>
    have hrest := ih (hashmapRemove js k)
    simp only [jsonRemoveAll, List.foldl_cons] at hrest ⊢
    rw [hrest, hashmapFind_remove]
    grind

end Dnt
