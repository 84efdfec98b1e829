import Dnt.Core.ConfActions
import Dnt.Theory.Packet.Identify

/-!
# Packets in a Compiled Pipeline

What a pipeline does to the headers of a packet. Only adding and deleting change the
header list, and every other action finds its header by an index. What actions write
into a packet is left open, and so are the results of their checks.

## Main definitions

* `Origin`, `TaggedPacket`: Which header of the configuration a header is, and a packet
  together with the origins of its headers.
* `Executes`: A packet that enters a pipeline can get to an action of it.
* `passes`: Following a packet through a pipeline.

## Theorems

* `executes_of_passes`: What `passes` finds is an execution.
-/

namespace Dnt

/-- Which header of the configuration a header of a packet is. -/
inductive Origin where
  | header (tag : Nat)
  | payload
  deriving DecidableEq, Repr

/-- A packet, with where each of its headers comes from. -/
structure TaggedPacket where
  packet : Packet
  origins : List Origin
  aligned : origins.length = packet.headers.length

variable {actions : List ConfAction}

open List

theorem length_packetAddHeader {p : Packet} {idx : Nat} {type : ProtocolID} {len : Nat}
    (h : (packetAddHeader p idx type len).1 = true) :
    (packetAddHeader p idx type len).2.headers.length = p.headers.length + 1 ∧
      idx ≤ p.headers.length := by grind [packetAddHeader_cases, length_insertIdx_of_le_length]

/-- `packet_add_header`, none if it fails. -/
def TaggedPacket.add (t : TaggedPacket) (idx : Nat) (type : ProtocolID) (len : Nat)
    (origin : Origin) : Option TaggedPacket :=
  if h : (packetAddHeader t.packet idx type len).1 = true then
    some
      { packet := (packetAddHeader t.packet idx type len).2
        origins := t.origins.insertIdx idx origin
        aligned := by
          have hlen := length_packetAddHeader h
          rw [hlen.1, length_insertIdx_of_le_length (by rw [t.aligned]; exact hlen.2),
            t.aligned] }
  else none

theorem headers_packetDelHeader (p : Packet) (idx : Nat) :
    (packetDelHeader p idx).headers = p.headers.eraseIdx idx := by
  grind [packetDelHeader, eraseIdx_of_length_le]

def TaggedPacket.del (t : TaggedPacket) (idx : Nat) : TaggedPacket :=
  { packet := packetDelHeader t.packet idx
    origins := t.origins.eraseIdx idx
    aligned := by
      rw [headers_packetDelHeader, length_eraseIdx, length_eraseIdx, t.aligned] }

def TaggedPacket.write (t : TaggedPacket) (buf : Nat → UInt8) : TaggedPacket :=
  { packet := { t.packet with buf := buf }, origins := t.origins, aligned := t.aligned }

/-- The origins of headers of the configuration, with `tail` behind them. -/
def originsOf (headers : List ConfHeader) (tail : List Origin) : List Origin :=
  (headers.map fun h => Origin.header h.tag) ++ tail

variable {t t' : TaggedPacket}

theorem length_tagHeaders (headers : List HeaderDescriptor) (n : Nat) :
    (tagHeaders headers n).length = headers.length := by
  induction headers generalizing n with
  | nil => rfl
  | cons d headers ih => simp [tagHeaders, ih]

def payloadOrigins (p : Packet) (headers : List HeaderDescriptor) : List Origin :=
  (payloadTail p headers).map fun _ => Origin.payload

/-- A packet that was matched by a stream with these headers. -/
def matchedPacket (p : Packet) (headers : List HeaderDescriptor) : TaggedPacket :=
  { packet := classified p headers
    origins := originsOf (tagHeaders headers 0) (payloadOrigins p headers)
    aligned := by
      simp only [originsOf, payloadOrigins, classified, length_append, length_map,
        length_tagHeaders, length_layoutFrom] }

/-- A packet can get behind an action of this type, now or after it was held.
Jumps and actions without a type are not assembled. -/
def goesOn : ActionBody ConfAction → Bool
  | .undef | .drop | .jump _ | .repl _ => false
  | _ => true

/-- The headers are changed by adding and deleting only. -/
def changesHeaders : ActionBody ConfAction → Bool
  | .add _ | .del _ => true
  | _ => false

/-- An action is executed, and the packet goes on. -/
inductive Advances : TaggedPacket → ConfAction → TaggedPacket → Prop where
  | add (t t' : TaggedPacket) (a : ConfAction) (d : AddAction) (hbody : a.body = .add d)
      (hadd : t.add d.posIdx d.id d.len (.header d.newTag) = some t') : Advances t a t'
  | del (t : TaggedPacket) (a : ConfAction) (d : DelAction) (hbody : a.body = .del d) :
      Advances t a (t.del d.idx)
  | other (t : TaggedPacket) (a : ConfAction) (buf : Nat → UInt8)
      (hgoes : goesOn a.body = true) (hother : changesHeaders a.body = false) :
      Advances t a (t.write buf)

/-- `Executes t as a t'`: when a packet `t` enters a pipeline, it can be that the
action `a` is executed on it, or on a copy in a branch, and that it is `t'`
by then. -/
inductive Executes : TaggedPacket → List ConfAction → ConfAction → TaggedPacket → Prop where
  | here (t : TaggedPacket) (a : ConfAction) (actions : List ConfAction) :
      Executes t (a :: actions) a t
  | next (t t' t'' : TaggedPacket) (a b : ConfAction) (actions : List ConfAction)
      (hstep : Advances t a t') (hrest : Executes t' actions b t'') :
      Executes t (a :: actions) b t''
  | branch (t t' : TaggedPacket) (a b : ConfAction) (actions : List ConfAction)
      (d : ReplAction ConfAction) (br : ReplicateBranch ConfAction) (hbody : a.body = .repl d)
      (hbr : br ∈ d.pipelines) (hrest : Executes t br.actions b t') :
      Executes t (a :: actions) b t'

/-- Headers can be added to the packet whenever the pipeline wants to. -/
def AddsSucceed (t : TaggedPacket) (actions : List ConfAction) : Prop :=
  ∀ (a : ConfAction) (t' : TaggedPacket) (d : AddAction), Executes t actions a t' →
    a.body = .add d → (t'.add d.posIdx d.id d.len (.header d.newTag)).isSome = true

theorem mem_of_executes {a : ConfAction} (h : Executes t actions a t')
    (hrepl : ∀ b ∈ actions, ∀ d, b.body ≠ .repl d) : a ∈ actions := by
  induction h with
  | here t a actions => exact mem_cons_self
  | next t t' t'' a b actions hstep hrest ih =>
    exact mem_cons_of_mem a (ih fun c hc => hrepl c (mem_cons_of_mem a hc))
  | branch t t' a b actions d br hbody hbr hrest ih =>
    exact absurd hbody (hrepl a mem_cons_self d)

/-- Actions without branches that add no header. -/
def addsNothing : ActionBody ConfAction → Bool
  | .add _ | .repl _ => false
  | _ => true

/-- Only the first action of the pipeline adds a header, and it can. -/
def addsAtOnce (t : TaggedPacket) : List ConfAction → Bool
  | [] => true
  | a :: actions =>
    (match a.body with
      | .add d => (t.add d.posIdx d.id d.len (.header d.newTag)).isSome
      | body => addsNothing body) && actions.all fun b => addsNothing b.body

theorem addsSucceed_of_addsAtOnce (h : addsAtOnce t actions = true) : AddsSucceed t actions := by
  cases actions with
  | nil =>
    intro a t' d hrun hbody
    cases hrun
  | cons a actions =>
    rcases (Bool.and_eq_true _ _).mp h with ⟨hfirst, hrest⟩
    rw [all_eq_true] at hrest
    -- no action behind the first one adds a header, in a branch or not
    have hbehind : ∀ b ∈ actions, ∀ d, b.body ≠ .repl d := by
      intro b hb d hbody
      have hnone := hrest b hb
      rw [hbody] at hnone
      cases hnone
    intro b t' d hrun hbody
    cases hrun with
    | here =>
      rw [hbody] at hfirst
      exact hfirst
    | next _ t₁ _ _ _ _ hstep hrun =>
      have hnone := hrest b (mem_of_executes hrun hbehind)
      rw [hbody] at hnone
      cases hnone
    | branch _ _ _ _ _ e br hrepl hbr hrun =>
      rw [hrepl] at hfirst
      cases hfirst

/-- The packet behind all actions, if it gets there. -/
def passes : TaggedPacket → List ConfAction → Option TaggedPacket
  | t, [] => some t
  | t, a :: actions =>
    match a.body with
    | .add d => (t.add d.posIdx d.id d.len (.header d.newTag)).bind fun t => passes t actions
    | .del d => passes (t.del d.idx) actions
    | body => if goesOn body = true then passes (t.write t.packet.buf) actions else none

theorem executes_of_passes (t : TaggedPacket) {before : List ConfAction} (behind : List ConfAction)
    (a : ConfAction) (h : passes t before = some t') : Executes t (before ++ a :: behind) a t' := by
  induction before generalizing t with
  | nil =>
    cases h
    exact .here _ a behind
  | cons b before ih =>
    unfold passes at h
    cases hbody : b.body with
    | add d =>
      rw [hbody] at h
      rcases Option.bind_eq_some_iff.mp h with ⟨t₁, hadd, hrest⟩
      exact .next t t₁ t' b a _ (.add t t₁ b d hbody hadd) (ih t₁ hrest)
    | del d =>
      rw [hbody] at h
      exact .next t _ t' b a _ (.del t b d hbody) (ih _ h)
    | _ =>
      rw [hbody] at h
      simp only at h
      split at h
      · rename_i hgoes
        exact .next t _ t' b a _
          (.other t b t.packet.buf (by rw [hbody]; exact hgoes) (by rw [hbody]; rfl)) (ih _ h)
      · cases h

end Dnt
