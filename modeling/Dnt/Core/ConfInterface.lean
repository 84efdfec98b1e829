import Dnt.Core.ConfUtils
import Dnt.Core.ParseTree

/-!
# Streams of an Interface

Which streams an interface receives, from the configuration line that lists them to the
parser that classifies its packets. Errors carry the text that is logged first.

## Main definitions

* `ConfStream`, `ConfStreamEntry`: A configured stream, and its entry in such a list.
* `ifaceStreamCb`: `iface_stream_cb` of `conf_interface.c` reads the line. It puts each
  stream in front of a list that it turns around at the end.
* `addstreamCb`: `addstream_cb` of `state.c` adds the streams to the parser one by one.
-/

namespace Dnt

/-- Every match names the header it is listed under. -/
def MatchesIndexed (headers : List HeaderDescriptor) : Prop :=
  ∀ (k : Nat) (h : HeaderDescriptor), headers[k]? = some h →
    ∀ m ∈ h.matchList, m.field.headerIdx = k

/-- A configured stream. The match parser gives every match the index of the header it was
written for (`matchesIndexed_parseMatchLine`), so a stream cannot be built otherwise. -/
structure ConfStream (α : Type*) where
  actions : α
  headers : List HeaderDescriptor
  indexed : MatchesIndexed headers

structure ConfStreamEntry (α : Type*) where
  stream : ConfStream α
  streamName : String

variable {α π : Type}

/-- A name of the line: the stream is put in front of the list. -/
def ifaceStreamTokenCb (streams : String → Option (ConfStream α))
    (list : List (ConfStreamEntry α)) (token : String) :
    Except String (List (ConfStreamEntry α)) :=
  match streams token with
  | some s => .ok (⟨s, token⟩ :: list)
  | none => .error ("no stream named '" ++ token ++ "'")

def firstDuplicate : List String → Option String
  | [] => none
  | name :: names => if names.contains name = true then some name else firstDuplicate names

/-- One line of the interfaces section. Lines that list no streams are skipped;
otherwise the result is the interface and its streams. -/
def ifaceStreamCb (isIface : String → Bool) (streams : String → Option (ConfStream α))
    (key value : List Char) : Except String (Option (String × List (ConfStreamEntry α))) :=
  match strstr ":streams".toList key with
  | none => .ok none
  | some idx =>
    if idx + 8 ≠ key.length then
      .error ("interface streams '" ++ String.ofList key ++ "' invalid")
    else
      let ifname := String.ofList (key.take idx)
      if isIface ifname = false then
        .error ("parsing streams for interfaces: unknown interface '" ++ ifname ++ "'")
      else
        match foreachTokens (ifaceStreamTokenCb streams) [] value with
        | .error e => .error e
        | .ok list =>
          -- the list is back to front, so this is the last stream listed twice
          match firstDuplicate (list.map ConfStreamEntry.streamName) with
          | some name =>
            .error ("interface '" ++ ifname ++ "' receives stream '" ++ name ++ "' twice")
          | none => .ok (some (ifname, list.reverse))

/-- Add the streams to a parser, in the order of the list. Pipelines are
compiled by `assemble`. -/
def addstreamCb (assemble : String → α → Option π) :
    ParseTree π → List (ConfStreamEntry α) → Except String (ParseTree π)
  | pt, [] => .ok pt
  | pt, s :: ss =>
    match assemble s.streamName s.stream.actions with
    | none => .error ("failed to create action pipeline for stream " ++ s.streamName)
    | some pipe =>
      match parsetreeAddStream pt s.stream.headers s.streamName pipe with
      | none => .error ("failed to add stream " ++ s.streamName ++ " to parsetree")
      | some pt => addstreamCb assemble pt ss

end Dnt
