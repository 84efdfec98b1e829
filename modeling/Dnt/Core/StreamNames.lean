import Dnt.Core.HashMap

/-!
# Stream Names

The names of streams that belong together, as `state.c` keeps them. Remote requests about
a stream are only honoured if it belongs to the same group as the stream they came in on.

## Main definitions

* `StreamNames`: A group of names. The value of a name in its hash map is `NULL`.
* `streamNamesInPipeline`: Each configured pipeline submits the names of its streams.
* `sameCompoundStream`: Two streams are in one group.
-/

namespace Dnt

abbrev StreamNames : Type :=
  HashMap Unit

/-- Adds the names to the group `snames`. -/
def copyStreamnames (names snames : StreamNames) : StreamNames :=
  names.foldl (fun snames e => hashmapInsert snames e.1 e.2) snames

def sharesName (s names : StreamNames) : Bool :=
  names.any fun e => hashmapContains s e.1

/-- The first group with one of the names gets all of them. -/
def addToFirst (names : StreamNames) : List StreamNames → Option (List StreamNames)
  | [] => none
  | s :: rest =>
    if sharesName s names = true then some (copyStreamnames names s :: rest)
    else (addToFirst names rest).map fun rest => s :: rest

def streamNamesInPipeline (streamNames : List StreamNames) (names : StreamNames) :
    List StreamNames :=
  match addToFirst names streamNames with
  | some streamNames => streamNames
  -- no group has a name in common
  | none => copyStreamnames names [] :: streamNames

def sameCompoundStream (streamNames : List StreamNames) (s1 s2 : String) : Bool :=
  streamNames.any fun s => hashmapContains s s1 && hashmapContains s s2

end Dnt
