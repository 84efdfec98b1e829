import Dnt.Core.OamMessage
import Dnt.Theory.Oam.Forward

/-!
# Requests along a Chain of Points

A request comes by one maintenance point after the other. A point of lower level
sends it on without reading it, one of higher level keeps it from going on, and at
the same level that depends on the target, the type of the point, and on what the
handler of the request returns. The handler of triggers returns false in any case,
so a trigger for any point does not get beyond the first one. It also wants to know the
numbers of the trigger, and on a stack of Ethernet and a VLAN tag these are lost: they
are taken out of the text, and no header has room for them.

All that is asked of what is between two points is that a packet carries the message
that was sent on.

## Main definitions

* `Request`, `HasNumbers`: A request, and a message with the numbers of one.
* `Visit`, `Journey`: A packet at a point, and a message along a chain of points.
* `SeenByAll`, `SeenByTarget`, `Meets`: How a request should go.
* `CutShort`, `Wanted`: Chains on which a trigger does not get far enough, and chains
  with a point that should look after a request.

## Theorems

* `visit_of_level`: What a point does with a request of its level.
* `hasNumbers_iff_stack`: A message has its numbers exactly if the stack carries them.
* `journey_meets_iff`: A request goes as it should, unless it is a trigger that is cut
  short, or a trigger without its numbers that some point should look after.
-/

namespace Dnt

variable {target : String}

/-! ## Messages with the same members -/

/-- No key tells the two apart. -/
def SameMembers (js js' : JsonObject) : Prop :=
  ∀ key, hashmapFind js key = hashmapFind js' key

/-- The requests that are answered, or make a notification, where they come by. -/
inductive RequestType where
  | ping
  | rlist
  | trigger
  deriving DecidableEq, Repr

def RequestType.name : RequestType → String
  | .ping => "ping"
  | .rlist => "rlist"
  | .trigger => "trigger"

def RequestType.handler : RequestType → InbandHandler
  | .ping => .ping
  | .rlist => .rlist
  | .trigger => .trigger

/-- The numbers of a request that its headers carry, but for the level. -/
def HasNumbers (js : JsonObject) : Prop :=
  ∀ key ∈ ["seq", "nodeid", "session"], (jsonObjectGetNumber js key).isSome = true

instance (js : JsonObject) : Decidable (HasNumbers js) :=
  inferInstanceAs (Decidable (∀ key ∈ ["seq", "nodeid", "session"], _))

/-- The handler that looks after a request, if it does. -/
def RequestType.handled (kind : RequestType) (js : JsonObject) : Option InbandHandler :=
  if kind = .trigger ∧ ¬ HasNumbers js then none else some kind.handler

/-- What the handler returns if all goes well. -/
def RequestType.answered : RequestType → Bool
  | .ping => true
  | .rlist => true
  | .trigger => false

/-- A request as it is sent. A trigger has no return address, and the other members
its notification is made of instead. -/
structure Request (kind : RequestType) (target : String) (js : JsonObject) : Prop where
  type : jsonObjectGetString js "type" = some kind.name
  code : jsonObjectGetString js "code" = some "request"
  target : jsonObjectGetString js "target" = some target
  level : (jsonObjectGetNumber js "level").isSome = true
  address : kind ≠ .trigger → (jsonObjectGetObject js "return").isSome = true
  source : kind = .trigger → (jsonObjectGetObject js "source").isSome = true ∧
    (jsonObjectGetString js "stream").isSome = true

/-- The same message, but for the route that is recorded in it. -/
def SameRequest (js js' : JsonObject) : Prop :=
  ∀ key, key ≠ "rr" → hashmapFind js' key = hashmapFind js key

variable {js : JsonObject} {points : List OamMaintenancePoint} {mp : OamMaintenancePoint}
  {p : Packet} {kind : RequestType} {ttl : UInt8}

open List

/-- Only the members `processInbandMessage` asks for matter, and the route is not
one of them. -/
theorem Request.congr {js' : JsonObject} (h : Request kind target js)
    (hsame : SameRequest js js') : Request kind target js' := by
  obtain ⟨htype, hcode, htarget, hlevel, haddress, hsource⟩ := h
  refine ⟨?_, ?_, ?_, ?_, fun hkind => ?_, fun hkind => ?_⟩
  · rwa [jsonObjectGetString, hsame "type" (by decide)]
  · rwa [jsonObjectGetString, hsame "code" (by decide)]
  · rwa [jsonObjectGetString, hsame "target" (by decide)]
  · rwa [jsonObjectGetNumber, hsame "level" (by decide)]
  · rw [jsonObjectGetObject, hsame "return" (by decide)]
    exact haddress hkind
  · rw [jsonObjectGetObject, jsonObjectGetString, hsame "source" (by decide),
      hsame "stream" (by decide)]
    exact hsource hkind

theorem SameRequest.hasNumbers_iff {js' : JsonObject} (h : SameRequest js js') :
    HasNumbers js' ↔ HasNumbers js := by
  refine forall₂_congr fun key hkey => ?_
  have hroute : key ≠ "rr" := by
    rintro rfl
    exact absurd hkey (by decide)
  rw [jsonObjectGetNumber, jsonObjectGetNumber, h key hroute]

theorem SameRequest.handled_eq {js' : JsonObject} (h : SameRequest js js') (kind : RequestType) :
    kind.handled js' = kind.handled js := by
  simp only [RequestType.handled, h.hasNumbers_iff]

theorem sameRequest_recordRoute {msg : JsonObject} (mp : OamMaintenancePoint)
    (hmsg : recordRoute mp js = some msg) : SameRequest js msg := by
  simp only [recordRoute, Option.map_eq_some_iff] at hmsg
  obtain ⟨vals, -, rfl⟩ := hmsg
  intro key hkey
  rw [hashmapFind_insert, if_neg hkey.symm]

theorem processInbandMessage_of_request (h : Request kind target js) (mp : OamMaintenancePoint)
    (httl : ttl ≠ 0) :
    processInbandMessage mp js ttl true =
      ⟨targetOutcome mp target kind.answered,
        if kind = .ping then recordRoute mp js else none⟩ := by
  obtain ⟨level, hlevel⟩ := Option.isSome_iff_exists.mp h.level
  have haddress := h.address
  unfold processInbandMessage
  rw [h.type, h.code, h.target, hlevel]
  cases kind with
  | ping =>
    simp [RequestType.name, RequestType.answered, httl, processPingRequest, replySent, h.code,
      haddress (by decide)]
  | rlist =>
    simp [RequestType.name, RequestType.answered, httl, processRlistRequest, replySent, h.code,
      haddress (by decide)]
  | trigger => simp [RequestType.name, RequestType.answered, httl, processTriggerRequest]

theorem inbandHandler_of_request (h : Request kind target js) (mp : OamMaintenancePoint)
    (httl : ttl ≠ 0) :
    inbandHandler mp js ttl =
      if target = "any" ∨ target = mp.name then some kind.handler else none := by
  obtain ⟨level, hlevel⟩ := Option.isSome_iff_exists.mp h.level
  unfold inbandHandler
  rw [h.type, h.code, h.target, hlevel]
  cases kind <;> simp [RequestType.name, RequestType.handler, httl]

/-- With replies that can be sent, only a trigger can be refused. -/
theorem processes_of_request (h : Request kind target js) :
    kind.handler.processes js true = true ↔ kind.handled js = some kind.handler := by
  have haddress := h.address
  cases kind with
  | ping =>
    simp [RequestType.handler, RequestType.handled, InbandHandler.processes, processPingRequest,
      replySent, h.code, haddress (by decide)]
  | rlist =>
    simp [RequestType.handler, RequestType.handled, InbandHandler.processes, processRlistRequest,
      replySent, h.code, haddress (by decide)]
  | trigger =>
    obtain ⟨hsource, hstream⟩ := h.source rfl
    simp [RequestType.handler, RequestType.handled, InbandHandler.processes,
      processTriggerRequest, triggerComplete, HasNumbers, h.code, h.level, h.target, hsource,
      hstream, ← Option.isSome_iff_ne_none, and_assoc]

/-! ## The stack -/

/-- Behind a text that has none of the keys in it, the numbers are there exactly if
headers carry them: always but on Ethernet without an R-TAG. -/
theorem hasNumbers_iff_stack (mp : OamMaintenancePoint) (p : Packet) {members : JsonObject}
    (htext : ∀ key ∈ achKeys, hashmapFind members key = none) :
    HasNumbers (jsonInsertAll members (headerMembers mp p)) ↔
      (mp.encap = .tsn → announcesRtag p = true) := by
  have hfind (key : String) (hkey : key ∈ achKeys) :
      hashmapFind (jsonInsertAll members (headerMembers mp p)) key =
        hashmapFind (headerMembers mp p) key := by
    rw [hashmapFind_jsonInsertAll _ (headerMembers_keys _ _).1, htext key hkey, Option.or_none]
  simp only [HasNumbers, forall_mem_cons, jsonObjectGetNumber, hfind "seq" (by decide),
    hfind "nodeid" (by decide), hfind "session" (by decide)]
  unfold headerMembers
  cases mp.encap with
  | srv6 | pw => exact iff_of_true ⟨rfl, rfl, rfl, nofun⟩ nofun
  | tsn =>
    cases announcesRtag p with
    | true => exact iff_of_true ⟨rfl, rfl, rfl, nofun⟩ fun _ => rfl
    | false => exact iff_of_false (fun h => Bool.false_ne_true h.1) fun h => nomatch h rfl

/-! ## Visits -/

/-- A packet with which a message of some level comes to a point. Only points of
this level read the message. -/
structure Arrives (lib : JsonLibrary) (level : Nat) (mp : OamMaintenancePoint) (p : Packet)
    (js : JsonObject) : Prop where
  compare : mpCompareLevel mp p = (level : Int) - mp.level
  message : mp.level = level → ∃ js', mpUnpackMessage lib mp p = some js' ∧ SameMembers js' js
  alive : mpGetTtl mp p ≠ 0

/-- A packet at a point: who has processed its message, and what became of it. -/
structure Visit where
  mp : OamMaintenancePoint
  packet : Packet
  processed : Option InbandHandler
  action : InbandAction

/-- One round of the receiver. Replies can be sent. -/
def visit (pseudoAddr : Nat) (lib : JsonLibrary) (mp : OamMaintenancePoint) (p : Packet) : Visit :=
  ⟨mp, p, inbandProcessed lib mp p true, inbandReceive pseudoAddr lib mp p true⟩

/-- The packet was sent on as it came. -/
def Visit.Passes (v : Visit) : Prop :=
  v.processed = none ∧ v.action = .resume v.packet

/-- The packet was dropped without its message being looked after. -/
def Visit.Discards (v : Visit) : Prop :=
  v.processed = none ∧ v.action = .cancel

/-- The message that goes on: the one that came, or what was written instead. -/
def sentOn (lib : JsonLibrary) (mp : OamMaintenancePoint) (p : Packet) (js : JsonObject) :
    JsonObject :=
  (inbandMessage lib mp p true).getD js

/-- Writing a message only fails if there is no memory. -/
def JsonLibrary.Serializes (lib : JsonLibrary) : Prop :=
  ∀ members, (lib.jsonSerialize (.object members)).isSome = true

section

variable (pseudoAddr : Nat) {lib : JsonLibrary} {level : Nat} {mp : OamMaintenancePoint}
  {p : Packet} {js : JsonObject}

theorem visit_of_lower (ha : Arrives lib level mp p js) (h : mp.level < level) :
    (visit pseudoAddr lib mp p).Passes ∧ sentOn lib mp p js = js := by
  have hlevel := ha.compare
  have hne : ¬ mpCompareLevel mp p = 0 := by omega
  refine ⟨⟨?_, ?_⟩, ?_⟩
  · simp only [visit, inbandProcessed, if_neg hne]
  · simp only [visit, inbandReceive]
    rw [if_neg (by omega), if_pos (by omega)]
  · simp [sentOn, inbandMessage, if_neg hne]

theorem visit_of_higher (ha : Arrives lib level mp p js) (h : level < mp.level) :
    (visit pseudoAddr lib mp p).Discards := by
  have hlevel := ha.compare
  have hne : ¬ mpCompareLevel mp p = 0 := by omega
  refine ⟨?_, ?_⟩
  · simp only [visit, inbandProcessed, if_neg hne]
  · simp only [visit, inbandReceive]
    rw [if_pos (by omega)]

theorem mpPackMessagePayload_isSome (mp : OamMaintenancePoint)
    (hlib : lib.Serializes) (hlinear : packetIsLinear p = true) (msg : JsonObject) :
    ∃ q, mpPackMessagePayload pseudoAddr lib mp p msg = some q := by
  obtain ⟨text, htext⟩ := Option.isSome_iff_exists.mp (hlib (mp.payloadMembers msg))
  exact ⟨_, mpPackMessagePayload_of_text pseudoAddr hlinear htext⟩

/-- A point of the level of the request gives it to its handler, if it is meant, and
sends it on if `targetOutcome` says so. -/
theorem visit_of_level (hlib : lib.Serializes) (hreq : Request kind target js)
    (ha : Arrives lib level mp p js) (h : mp.level = level) :
    (visit pseudoAddr lib mp p).processed =
        (if target = "any" ∨ target = mp.name then kind.handled js else none) ∧
      (if targetOutcome mp target kind.answered = true then
        (∃ q, (visit pseudoAddr lib mp p).action = .resume q) ∧
          SameRequest js (sentOn lib mp p js)
      else (visit pseudoAddr lib mp p).action = .cancel) := by
  obtain ⟨js', hunpack, hsame⟩ := ha.message h
  have hsame' : SameRequest js js' := fun key _ => hsame key
  have hreq' : Request kind target js' := hreq.congr hsame'
  have hzero : mpCompareLevel mp p = 0 := by
    rw [ha.compare]
    omega
  have hprocess := processInbandMessage_of_request hreq' mp ha.alive
  refine ⟨?_, ?_⟩
  · simp only [visit, inbandProcessed, if_pos hzero, hunpack, Option.bind_some]
    rw [inbandHandler_of_request hreq' mp ha.alive, ← hsame'.handled_eq kind]
    by_cases hmeant : target = "any" ∨ target = mp.name
    · -- the handler is called, and a trigger may be refused
      have hdone := processes_of_request hreq'
      rw [if_pos hmeant, if_pos hmeant]
      by_cases hok : kind.handler.processes js' true = true
      · rw [hdone.mp hok]
        simp [hok]
      · have hnone : kind.handled js' = none := by
          rw [hdone, RequestType.handled] at hok
          rw [RequestType.handled]
          exact if_pos (by_contra fun hno => hok (if_neg hno))
        rw [hnone]
        simp [hok]
    · rw [if_neg hmeant, if_neg hmeant]
      rfl
  by_cases hout : targetOutcome mp target kind.answered = true
  · rw [if_pos hout]
    rw [hout] at hprocess
    -- the message is the one that came in, unless the route was recorded in it
    cases hroute : (if kind = .ping then recordRoute mp js' else none) with
    | none =>
      rw [hroute] at hprocess
      refine ⟨⟨p, ?_⟩, ?_⟩
      · simp [visit, inbandReceive, hzero, hunpack, hprocess]
      · have hmsg : sentOn lib mp p js = js := by
          simp [sentOn, inbandMessage, hzero, hunpack, hprocess]
        rw [hmsg]
        exact fun key _ => rfl
    | some msg =>
      rw [hroute] at hprocess
      have hping : kind = .ping := by grind
      rw [if_pos hping] at hroute
      have hlinear := (readable_of_mpUnpackMessage hunpack).1.linear
      obtain ⟨q, hq⟩ := mpPackMessagePayload_isSome pseudoAddr mp hlib hlinear msg
      refine ⟨⟨q, ?_⟩, ?_⟩
      · simp [visit, inbandReceive, hzero, hunpack, hprocess, hq]
      · have hmsg : sentOn lib mp p js = msg := by
          simp [sentOn, inbandMessage, hzero, hunpack, hprocess]
        rw [hmsg]
        exact fun key hkey => (sameRequest_recordRoute mp hroute key hkey).trans (hsame key)
  · rw [if_neg hout]
    rw [Bool.of_not_eq_true hout] at hprocess
    simp [visit, inbandReceive, hzero, hunpack, hprocess]

end

/-! ## Journeys -/

/-- The visits of a message of some level along a chain of points. It ends at the
first point that does not send it on. -/
inductive Journey (pseudoAddr : Nat) (lib : JsonLibrary) (level : Nat) :
    List OamMaintenancePoint → JsonObject → List Visit → Prop where
  | done (js : JsonObject) : Journey pseudoAddr lib level [] js []
  | stays (mp : OamMaintenancePoint) (rest : List OamMaintenancePoint) (js : JsonObject)
      (p : Packet) (arrives : Arrives lib level mp p js)
      (cancel : (visit pseudoAddr lib mp p).action = .cancel) :
      Journey pseudoAddr lib level (mp :: rest) js [visit pseudoAddr lib mp p]
  | leaves (mp : OamMaintenancePoint) (rest : List OamMaintenancePoint) (js : JsonObject)
      (p q : Packet) (visits : List Visit) (arrives : Arrives lib level mp p js)
      (resume : (visit pseudoAddr lib mp p).action = .resume q)
      (next : Journey pseudoAddr lib level rest (sentOn lib mp p js) visits) :
      Journey pseudoAddr lib level (mp :: rest) js (visit pseudoAddr lib mp p :: visits)

/-- How a request for any point should go: points of its level look after it up to the
first stop, points of lower level send it on as it is, and one of higher level drops it. -/
def SeenByAll (handler : InbandHandler) (level : Nat) :
    List OamMaintenancePoint → List Visit → Prop
  | [], visits => visits = []
  | _ :: _, [] => False
  | mp :: rest, v :: visits =>
    v.mp = mp ∧
      if mp.level < level then v.Passes ∧ SeenByAll handler level rest visits
      else if level < mp.level then v.Discards ∧ visits = []
      else v.processed = some handler ∧
        if mp.type = .stop then visits = [] else SeenByAll handler level rest visits

/-- What may be in front of the point a request is for: points of lower level, and
points of its level that are neither meant nor stops. -/
def OnTheWay (level : Nat) (target : String) (mp : OamMaintenancePoint) : Prop :=
  mp.level < level ∨ mp.level = level ∧ mp.name ≠ target ∧ mp.type ≠ .stop

/-- How a request for a point with a name should go: the first such point that can be
reached looks after it, and no other does. -/
def SeenByTarget (handler : InbandHandler) (level : Nat) (target : String)
    (points : List OamMaintenancePoint) (visits : List Visit) : Prop :=
  ∀ before mp after, points = before ++ mp :: after → (∀ x ∈ before, OnTheWay level target x) →
    mp.level = level → mp.name = target →
      ∃ vs v, visits = vs ++ [v] ∧ vs.map Visit.mp = before ∧ v.mp = mp ∧
        (∀ u ∈ vs, u.processed = none ∧ (u.mp.level < level → u.Passes)) ∧
        v.processed = some handler

def Meets (kind : RequestType) (target : String) (level : Nat)
    (points : List OamMaintenancePoint) (visits : List Visit) : Prop :=
  if target = "any" then SeenByAll kind.handler level points visits
  else SeenByTarget kind.handler level target points visits

/-- The first point that is not of lower level has the level of the request, is not a
stop, and has other points behind it. -/
def CutShort (level : Nat) : List OamMaintenancePoint → Prop
  | [] => False
  | mp :: rest =>
    if mp.level < level then CutShort level rest
    else mp.level = level ∧ mp.type ≠ .stop ∧ rest ≠ []

/-- There is a point that should look after the request: all points in front of it let it
by. -/
def Wanted (level : Nat) (target : String) : List OamMaintenancePoint → Prop
  | [] => False
  | mp :: rest =>
    if mp.level < level then Wanted level target rest
    else mp.level = level ∧
      (target = "any" ∨ mp.name = target ∨ mp.type ≠ .stop ∧ Wanted level target rest)

/-! ## Requests for any point -/

section

variable {handler : InbandHandler} {level : Nat} {mp : OamMaintenancePoint}
  {rest : List OamMaintenancePoint} {v : Visit} {visits : List Visit}

theorem seenByAll_nil_iff (points : List OamMaintenancePoint) :
    SeenByAll handler level points [] ↔ points = [] := by
  cases points with
  | nil => exact iff_of_true rfl rfl
  | cons mp rest => exact iff_of_false id (cons_ne_nil mp rest)

theorem seenByAll_lower (h : mp.level < level) :
    SeenByAll handler level (mp :: rest) (v :: visits) ↔
      v.mp = mp ∧ v.Passes ∧ SeenByAll handler level rest visits := by
  simp only [SeenByAll, if_pos h]

theorem seenByAll_level (h : mp.level = level) :
    SeenByAll handler level (mp :: rest) (v :: visits) ↔
      v.mp = mp ∧ v.processed = some handler ∧
        if mp.type = .stop then visits = [] else SeenByAll handler level rest visits := by
  simp only [SeenByAll]
  rw [if_neg (by omega), if_neg (by omega)]

theorem seenByAll_higher (h : level < mp.level) :
    SeenByAll handler level (mp :: rest) (v :: visits) ↔ v.mp = mp ∧ v.Discards ∧ visits = [] := by
  simp only [SeenByAll]
  rw [if_neg (by omega), if_pos h]

theorem cutShort_lower (h : mp.level < level) :
    CutShort level (mp :: rest) ↔ CutShort level rest := by
  simp only [CutShort, if_pos h]

theorem cutShort_not_lower (h : level ≤ mp.level) :
    CutShort level (mp :: rest) ↔ mp.level = level ∧ mp.type ≠ .stop ∧ rest ≠ [] := by
  simp only [CutShort]
  rw [if_neg (by omega)]

theorem wanted_lower (h : mp.level < level) {target : String} :
    Wanted level target (mp :: rest) ↔ Wanted level target rest := by
  simp only [Wanted, if_pos h]

theorem wanted_not_lower (h : level ≤ mp.level) {target : String} :
    Wanted level target (mp :: rest) ↔ mp.level = level ∧
      (target = "any" ∨ mp.name = target ∨ mp.type ≠ .stop ∧ Wanted level target rest) := by
  simp only [Wanted]
  rw [if_neg (by omega)]

end

variable {visits : List Visit}

theorem targetOutcome_any (mp : OamMaintenancePoint) (answered : Bool) :
    targetOutcome mp "any" answered = true ↔ answered = true ∧ mp.type ≠ .stop := by
  simp only [targetOutcome, if_true]
  cases answered <;> simp

section

variable (pseudoAddr : Nat) {lib : JsonLibrary} {level : Nat} {kind : RequestType}

theorem visit_any (hlib : lib.Serializes) (hreq : Request kind "any" js)
    (ha : Arrives lib level mp p js) (h : mp.level = level) :
    (visit pseudoAddr lib mp p).processed = kind.handled js ∧
      if kind ≠ .trigger ∧ mp.type ≠ .stop then
        (∃ q, (visit pseudoAddr lib mp p).action = .resume q) ∧
          SameRequest js (sentOn lib mp p js)
      else (visit pseudoAddr lib mp p).action = .cancel := by
  obtain ⟨hdone, haction⟩ := visit_of_level pseudoAddr hlib hreq ha h
  rw [if_pos (Or.inl rfl)] at hdone
  have hanswered : kind.answered = true ↔ kind ≠ .trigger := by
    cases kind with
    | ping | rlist | trigger => decide
  simp only [targetOutcome_any, hanswered] at haction
  exact ⟨hdone, haction⟩

/-- A request for any point that is not refused goes as it should, unless it is a trigger
that is cut short. -/
theorem journey_seenByAll_iff (hlib : lib.Serializes)
    (hj : Journey pseudoAddr lib level points js visits) (hreq : Request kind "any" js)
    (hhandled : kind.handled js = some kind.handler) :
    SeenByAll kind.handler level points visits ↔ ¬ (kind = .trigger ∧ CutShort level points) := by
  induction hj with
  | done js => exact iff_of_true rfl fun h => h.2
  | stays mp rest js p arrives cancel =>
    rcases Nat.lt_trichotomy mp.level level with hlt | heq | hgt
    · -- a point of lower level does not keep anything
      obtain ⟨⟨-, hresume⟩, -⟩ := visit_of_lower pseudoAddr arrives hlt
      rw [cancel] at hresume
      cases hresume
    · obtain ⟨hprocessed, haction⟩ := visit_any pseudoAddr hlib hreq arrives heq
      rw [hhandled] at hprocessed
      rw [seenByAll_level heq, cutShort_not_lower (Nat.le_of_eq heq.symm), seenByAll_nil_iff]
      by_cases hstop : mp.type = .stop
      · rw [if_pos hstop]
        exact iff_of_true ⟨rfl, hprocessed, rfl⟩ fun h => h.2.2.1 hstop
      · -- only the handler of triggers keeps a request from going on
        have htrigger : kind = .trigger := by
          by_contra hkind
          rw [if_pos ⟨hkind, hstop⟩] at haction
          obtain ⟨⟨q, hq⟩, -⟩ := haction
          rw [cancel] at hq
          cases hq
        rw [if_neg hstop]
        constructor
        · exact fun h hcut => hcut.2.2.2 h.2.2
        · intro h
          refine ⟨rfl, hprocessed, ?_⟩
          by_contra hrest
          exact h ⟨htrigger, heq, hstop, hrest⟩
    · have hdiscards := visit_of_higher pseudoAddr arrives hgt
      rw [seenByAll_higher hgt, cutShort_not_lower (Nat.le_of_lt hgt)]
      exact iff_of_true ⟨rfl, hdiscards, rfl⟩ fun h => Nat.ne_of_gt hgt h.2.1
  | leaves mp rest js p q visits arrives resume next ih =>
    rcases Nat.lt_trichotomy mp.level level with hlt | heq | hgt
    · obtain ⟨hpasses, hsent⟩ := visit_of_lower pseudoAddr arrives hlt
      rw [seenByAll_lower hlt, cutShort_lower hlt, ← ih (by rw [hsent]; exact hreq)
        (by rw [hsent]; exact hhandled)]
      exact ⟨fun h => h.2.2, fun h => ⟨rfl, hpasses, h⟩⟩
    · obtain ⟨hprocessed, haction⟩ := visit_any pseudoAddr hlib hreq arrives heq
      rw [hhandled] at hprocessed
      by_cases hon : kind ≠ .trigger ∧ mp.type ≠ .stop
      · rw [if_pos hon] at haction
        rw [seenByAll_level heq, if_neg hon.2, ih (hreq.congr haction.2)
          ((haction.2.handled_eq kind).trans hhandled)]
        exact iff_of_true ⟨rfl, hprocessed, fun h => hon.1 h.1⟩ fun h => hon.1 h.1
      · rw [if_neg hon, resume] at haction
        cases haction
    · obtain ⟨-, hcancel⟩ := visit_of_higher pseudoAddr arrives hgt
      rw [resume] at hcancel
      cases hcancel

/-! ## Requests for one point -/

theorem targetOutcome_named (mp : OamMaintenancePoint) {answered : Bool} (h : target ≠ "any") :
    targetOutcome mp target answered = true ↔ mp.name ≠ target ∧ mp.type ≠ .stop := by
  grind [targetOutcome]

theorem visit_named (hlib : lib.Serializes) (htarget : target ≠ "any")
    (hreq : Request kind target js) (ha : Arrives lib level mp p js) (h : mp.level = level) :
    (visit pseudoAddr lib mp p).processed =
        (if target = mp.name then kind.handled js else none) ∧
      if mp.name ≠ target ∧ mp.type ≠ .stop then
        (∃ q, (visit pseudoAddr lib mp p).action = .resume q) ∧
          SameRequest js (sentOn lib mp p js)
      else (visit pseudoAddr lib mp p).action = .cancel := by
  obtain ⟨hprocessed, haction⟩ := visit_of_level pseudoAddr hlib hreq ha h
  simp only [htarget, false_or] at hprocessed
  simp only [targetOutcome_named mp htarget] at haction
  exact ⟨hprocessed, haction⟩

theorem visit_onTheWay (hlib : lib.Serializes) (htarget : target ≠ "any")
    (hreq : Request kind target js) (ha : Arrives lib level mp p js)
    (h : OnTheWay level target mp) : (visit pseudoAddr lib mp p).processed = none ∧
      (mp.level < level → (visit pseudoAddr lib mp p).Passes) ∧
      (∃ q, (visit pseudoAddr lib mp p).action = .resume q) ∧
      SameRequest js (sentOn lib mp p js) := by
  rcases h with hlt | ⟨heq, hname, hstop⟩
  · obtain ⟨hpasses, hsent⟩ := visit_of_lower pseudoAddr ha hlt
    exact ⟨hpasses.1, fun _ => hpasses, ⟨p, hpasses.2⟩, by rw [hsent]; exact fun _ _ => rfl⟩
  · obtain ⟨hprocessed, haction⟩ := visit_named pseudoAddr hlib htarget hreq ha heq
    rw [if_neg (Ne.symm hname)] at hprocessed
    rw [if_pos ⟨hname, hstop⟩] at haction
    exact ⟨hprocessed, fun hlt => absurd heq (Nat.ne_of_lt hlt), haction⟩

/-- A request for one point that is not refused gets there. -/
theorem journey_seenByTarget (hlib : lib.Serializes) (htarget : target ≠ "any")
    (hj : Journey pseudoAddr lib level points js visits) (hreq : Request kind target js)
    (hhandled : kind.handled js = some kind.handler) :
    SeenByTarget kind.handler level target points visits := by
  induction hj with
  | done js =>
    intro before mp after hpoints
    exact absurd hpoints.symm (append_ne_nil_of_right_ne_nil _ (cons_ne_nil _ _))
  | stays mp rest js p arrives cancel =>
    intro before mp' after hpoints hway hlevel hname
    cases before with
    | nil =>
      -- the message is at its target
      obtain ⟨rfl, rfl⟩ := cons_eq_cons.mp hpoints
      obtain ⟨hprocessed, -⟩ := visit_named pseudoAddr hlib htarget hreq arrives hlevel
      rw [if_pos hname.symm, hhandled] at hprocessed
      exact ⟨[], _, rfl, rfl, rfl, fun u hu => absurd hu not_mem_nil, hprocessed⟩
    | cons x before =>
      obtain ⟨rfl, -⟩ := cons_eq_cons.mp hpoints
      obtain ⟨-, -, ⟨q, hq⟩, -⟩ := visit_onTheWay pseudoAddr hlib htarget hreq arrives
        (hway mp mem_cons_self)
      rw [cancel] at hq
      cases hq
  | leaves mp rest js p q visits arrives resume next ih =>
    intro before mp' after hpoints hway hlevel hname
    cases before with
    | nil =>
      obtain ⟨rfl, rfl⟩ := cons_eq_cons.mp hpoints
      obtain ⟨-, haction⟩ := visit_named pseudoAddr hlib htarget hreq arrives hlevel
      rw [if_neg fun h => h.1 hname, resume] at haction
      cases haction
    | cons x before =>
      obtain ⟨rfl, hrest⟩ := cons_eq_cons.mp hpoints
      obtain ⟨hprocessed, hpasses, -, hsent⟩ := visit_onTheWay pseudoAddr hlib htarget hreq
        arrives (hway mp mem_cons_self)
      obtain ⟨vs, v, rfl, hmap, hmp, hothers, hlast⟩ := ih (hreq.congr hsent)
        ((hsent.handled_eq kind).trans hhandled) before mp' after hrest
        (fun x hx => hway x (mem_cons_of_mem _ hx)) hlevel hname
      refine ⟨visit pseudoAddr lib mp p :: vs, v, rfl, ?_, hmp, ?_, hlast⟩
      · rw [map_cons, hmap]
        rfl
      · exact forall_mem_cons.mpr ⟨⟨hprocessed, hpasses⟩, hothers⟩

/-! ## Triggers without their numbers -/

/-- No point looks after a request that its handler refuses. -/
theorem journey_unprocessed (hlib : lib.Serializes)
    (hj : Journey pseudoAddr lib level points js visits) (hreq : Request kind target js)
    (hhandled : kind.handled js = none) : ∀ v ∈ visits, v.processed = none := by
  have hvisit : ∀ {mp p js}, Request kind target js → kind.handled js = none →
      Arrives lib level mp p js → (visit pseudoAddr lib mp p).processed = none ∧
        ((visit pseudoAddr lib mp p).action = .cancel ∨ SameRequest js (sentOn lib mp p js)) := by
    intro mp p js hreq hhandled arrives
    rcases Nat.lt_trichotomy mp.level level with hlt | heq | hgt
    · obtain ⟨hpasses, hsent⟩ := visit_of_lower pseudoAddr arrives hlt
      exact ⟨hpasses.1, .inr (by rw [hsent]; exact fun _ _ => rfl)⟩
    · obtain ⟨hprocessed, haction⟩ := visit_of_level pseudoAddr hlib hreq arrives heq
      rw [hhandled, ite_self] at hprocessed
      refine ⟨hprocessed, ?_⟩
      split at haction
      · exact .inr haction.2
      · exact .inl haction
    · obtain ⟨hprocessed, hcancel⟩ := visit_of_higher pseudoAddr arrives hgt
      exact ⟨hprocessed, .inl hcancel⟩
  induction hj with
  | done js => exact forall_mem_nil _
  | stays mp rest js p arrives cancel =>
    exact forall_mem_singleton.mpr (hvisit hreq hhandled arrives).1
  | leaves mp rest js p q visits arrives resume next ih =>
    obtain ⟨hprocessed, hcancel | hsent⟩ := hvisit hreq hhandled arrives
    · rw [resume] at hcancel
      cases hcancel
    · exact forall_mem_cons.mpr ⟨hprocessed,
        ih (hreq.congr hsent) ((hsent.handled_eq kind).trans hhandled)⟩

/-- If a point should look after a request for any point, one has to. -/
theorem exists_processed_of_seenByAll {handler : InbandHandler}
    (hseen : SeenByAll handler level points visits) (hwanted : Wanted level "any" points) :
    ∃ v ∈ visits, v.processed = some handler := by
  induction points generalizing visits with
  | nil => exact absurd hwanted id
  | cons mp rest ih =>
    cases visits with
    | nil => exact absurd hseen id
    | cons v visits =>
      by_cases hlt : mp.level < level
      · rw [seenByAll_lower hlt] at hseen
        rw [wanted_lower hlt] at hwanted
        obtain ⟨u, hu, hprocessed⟩ := ih hseen.2.2 hwanted
        exact ⟨u, mem_cons_of_mem _ hu, hprocessed⟩
      · rw [wanted_not_lower (by omega)] at hwanted
        rw [seenByAll_level hwanted.1] at hseen
        exact ⟨v, mem_cons_self, hseen.2.1⟩

/-- Where no point should look after a request for any point, it is discarded or comes to
the end of the chain. -/
theorem seenByAll_of_not_wanted {handler : InbandHandler}
    (hj : Journey pseudoAddr lib level points js visits) (hwanted : ¬ Wanted level "any" points) :
    SeenByAll handler level points visits := by
  induction hj with
  | done js => exact rfl
  | stays mp rest js p arrives cancel =>
    rcases Nat.lt_trichotomy mp.level level with hlt | heq | hgt
    · obtain ⟨⟨-, hresume⟩, -⟩ := visit_of_lower pseudoAddr arrives hlt
      rw [cancel] at hresume
      cases hresume
    · exact absurd ((wanted_not_lower (Nat.le_of_eq heq.symm)).mpr ⟨heq, .inl rfl⟩) hwanted
    · exact (seenByAll_higher hgt).mpr ⟨rfl, visit_of_higher pseudoAddr arrives hgt, rfl⟩
  | leaves mp rest js p q visits arrives resume next ih =>
    rcases Nat.lt_trichotomy mp.level level with hlt | heq | hgt
    · rw [wanted_lower hlt] at hwanted
      exact (seenByAll_lower hlt).mpr
        ⟨rfl, (visit_of_lower pseudoAddr arrives hlt).1, ih hwanted⟩
    · exact absurd ((wanted_not_lower (Nat.le_of_eq heq.symm)).mpr ⟨heq, .inl rfl⟩) hwanted
    · obtain ⟨-, hcancel⟩ := visit_of_higher pseudoAddr arrives hgt
      rw [resume] at hcancel
      cases hcancel

/-- A point that should look after a request for it is one that can be reached. -/
theorem wanted_named_iff (htarget : target ≠ "any") :
    Wanted level target points ↔ ∃ before mp after, points = before ++ mp :: after ∧
      (∀ x ∈ before, OnTheWay level target x) ∧ mp.level = level ∧ mp.name = target := by
  induction points with
  | nil =>
    refine iff_of_false id ?_
    rintro ⟨before, mp, after, hpoints, -⟩
    exact absurd hpoints.symm (append_ne_nil_of_right_ne_nil _ (cons_ne_nil _ _))
  | cons mp rest ih =>
    have hcons : (∃ before mp' after, mp :: rest = before ++ mp' :: after ∧
        (∀ x ∈ before, OnTheWay level target x) ∧ mp'.level = level ∧ mp'.name = target) ↔
        (mp.level = level ∧ mp.name = target) ∨
          OnTheWay level target mp ∧ Wanted level target rest := by
      rw [ih]
      constructor
      · rintro ⟨_ | ⟨x, before⟩, mp', after, hpoints, hway, hmeant⟩
        · obtain ⟨rfl, rfl⟩ := cons_eq_cons.mp hpoints
          exact .inl hmeant
        · obtain ⟨rfl, rfl⟩ := cons_eq_cons.mp hpoints
          rw [forall_mem_cons] at hway
          exact .inr ⟨hway.1, before, mp', after, rfl, hway.2, hmeant⟩
      · rintro (hmeant | ⟨hway, before, mp', after, rfl, hbefore, hmeant⟩)
        · exact ⟨[], mp, rest, rfl, forall_mem_nil _, hmeant⟩
        · exact ⟨mp :: before, mp', after, rfl, forall_mem_cons.mpr ⟨hway, hbefore⟩, hmeant⟩
    rw [hcons]
    simp only [Wanted, OnTheWay]
    by_cases hlt : mp.level < level
    · rw [if_pos hlt]
      have hne : mp.level ≠ level := Nat.ne_of_lt hlt
      simp [hlt, hne]
    · rw [if_neg hlt]
      simp only [hlt, htarget, false_or]
      tauto

theorem seenByTarget_unnumbered_iff (htarget : target ≠ "any")
    {handler : InbandHandler} (hnone : ∀ v ∈ visits, v.processed = none) :
    SeenByTarget handler level target points visits ↔ ¬ Wanted level target points := by
  rw [wanted_named_iff htarget]
  constructor
  · rintro hseen ⟨before, mp, after, hpoints, hway, hlevel, hname⟩
    obtain ⟨vs, v, rfl, -, -, -, hlast⟩ := hseen before mp after hpoints hway hlevel hname
    rw [hnone v (mem_append_right _ mem_cons_self)] at hlast
    cases hlast
  · intro hno before mp after hpoints hway hlevel hname
    exact absurd ⟨before, mp, after, hpoints, hway, hlevel, hname⟩ hno

/-- A request goes along a chain as it should exactly if it is not a trigger for any
point that is cut short, nor one without its numbers that a point should look after. On
the way to a point the numbers are in the headers, but on Ethernet without an R-TAG. -/
theorem journey_meets_iff (hlib : lib.Serializes) {target : String}
    {points : List OamMaintenancePoint} {js : JsonObject} {visits : List Visit}
    (hj : Journey pseudoAddr lib level points js visits) (hreq : Request kind target js) :
    (Meets kind target level points visits ↔
      ¬ (kind = .trigger ∧ (target = "any" ∧ CutShort level points ∨
        ¬ HasNumbers js ∧ Wanted level target points))) ∧
      ∀ (mp : OamMaintenancePoint) (p : Packet) (members : JsonObject),
        (∀ key ∈ achKeys, hashmapFind members key = none) →
        (HasNumbers (jsonInsertAll members (headerMembers mp p)) ↔
          (mp.encap = .tsn → announcesRtag p = true)) := by
  refine ⟨?_, fun mp p members htext => hasNumbers_iff_stack mp p htext⟩
  unfold Meets
  by_cases hrefused : kind = .trigger ∧ ¬ HasNumbers js
  · have hhandled : kind.handled js = none := if_pos hrefused
    have hnone := journey_unprocessed pseudoAddr hlib hj hreq hhandled
    by_cases htarget : target = "any"
    · subst htarget
      -- a chain that is cut short has a point that should look after the trigger
      have hcut : CutShort level points → Wanted level "any" points := by
        clear hj hnone
        induction points with
        | nil => exact id
        | cons mp rest ih =>
          simp only [CutShort, Wanted]
          split
          · exact ih
          · exact fun h => ⟨h.1, .inl trivial⟩
      rw [if_pos rfl]
      constructor
      · intro hseen h
        obtain ⟨v, hv, hprocessed⟩ := exists_processed_of_seenByAll hseen
          (h.2.elim (fun h => hcut h.2) And.right)
        rw [hnone v hv] at hprocessed
        cases hprocessed
      · exact fun h => seenByAll_of_not_wanted pseudoAddr hj
          fun hwanted => h ⟨hrefused.1, .inr ⟨hrefused.2, hwanted⟩⟩
    · rw [if_neg htarget, seenByTarget_unnumbered_iff htarget hnone]
      simp [htarget, hrefused]
  · have hhandled : kind.handled js = some kind.handler := if_neg hrefused
    have hnumbered : kind = .trigger → HasNumbers js :=
      fun h => by_contra fun hno => hrefused ⟨h, hno⟩
    by_cases htarget : target = "any"
    · subst htarget
      rw [if_pos rfl, journey_seenByAll_iff pseudoAddr hlib hj hreq hhandled]
      simp only [true_and]
      tauto
    · rw [if_neg htarget]
      refine iff_of_true (journey_seenByTarget pseudoAddr hlib htarget hj hreq hhandled) ?_
      tauto

end

/-! ## A trigger for any point -/

def triggerMembers : JsonObject :=
  [("code", .string "request"), ("source", .object []), ("stream", .string "stream"),
   ("target", .string "any"), ("type", .string "trigger")]

def triggerText : List UInt8 :=
  asciiOctets ("\x7b\"code\":\"request\",\"source\":\x7b\x7d,\"stream\":\"stream\"," ++
    "\"target\":\"any\",\"type\":\"trigger\"\x7d")

def triggerLibrary : JsonLibrary where
  jsonParse text := if text = triggerText then some (.object triggerMembers) else none
  jsonSerialize
    | .object [("code", .string "request"), ("source", .object []), ("stream", .string "stream"),
        ("target", .string "any"), ("type", .string "trigger")] => some triggerText
    | _ => some (asciiOctets "null")
  jsonSerialize_ne_nil v text h := by
    split at h
    all_goals
      cases h
      decide

theorem triggerLibrary_serializes : triggerLibrary.Serializes := by
  intro members
  simp only [triggerLibrary]
  split
  · rfl
  · rfl

/-- The trigger in a pseudowire, at level 3. -/
def triggerPacket : Packet :=
  classified (receivedOctets ([0, 0, 1, 64, 0x10, 9, 0x7f, 0xff, 0, 0x4d, 0x26, 5] ++ triggerText))
    pwHeaders

def triggerMessage : JsonObject :=
  jsonInsertAll triggerMembers (headerMembers mipPoint triggerPacket)

theorem triggerMessage_request : Request .trigger "any" triggerMessage := by
  have hfind (key : String) : hashmapFind triggerMessage key =
      (hashmapFind (headerMembers mipPoint triggerPacket) key).or
        (hashmapFind triggerMembers key) :=
    hashmapFind_jsonInsertAll _ (headerMembers_keys _ _).1
  -- all but the level come from the text
  have htext (key : String) (hkey : key ∉ achKeys) :
      hashmapFind triggerMessage key = hashmapFind triggerMembers key := by
    rw [hfind, hashmapFind_headerMembers_of_not_mem _ _ hkey, Option.none_or]
  refine ⟨?_, ?_, ?_, ?_, fun h => absurd rfl h, fun _ => ⟨?_, ?_⟩⟩
  · rw [jsonObjectGetString, htext "type" (by decide)]
    rfl
  · rw [jsonObjectGetString, htext "code" (by decide)]
    rfl
  · rw [jsonObjectGetString, htext "target" (by decide)]
    rfl
  · have hencap : mipPoint.encap = .pw := by decide
    rw [jsonObjectGetNumber, hfind, headerMembers, hencap]
    rfl
  · rw [jsonObjectGetObject, htext "source" (by decide)]
    rfl
  · rw [jsonObjectGetString, htext "stream" (by decide)]
    rfl

/-- In a pseudowire the numbers are in the header of the channel. -/
theorem triggerMessage_hasNumbers : HasNumbers triggerMessage :=
  (hasNumbers_iff_stack mipPoint triggerPacket (by decide)).mpr fun h => absurd h (by decide)

/-- A second point in the pseudowire, and one of a lower level. -/
def secondPoint : OamMaintenancePoint :=
  { mipPoint with name := "second" }

def lowerPoint : OamMaintenancePoint :=
  { mipPoint with name := "lower", level := 1 }

theorem triggerPacket_arrives : Arrives triggerLibrary 3 mipPoint triggerPacket triggerMessage := by
  have hunpack : mpUnpackMessage triggerLibrary mipPoint triggerPacket = some triggerMessage := by
    have hread : Readable mipPoint triggerPacket :=
      ⟨by decide, by decide, fun h => absurd h (by decide)⟩
    have hload : Memory.load triggerPacket.buf (textStart mipPoint triggerPacket)
        (packetLength triggerPacket - overhead mipPoint triggerPacket) = triggerText := by
      decide +kernel
    rw [mpUnpackMessage_of_readable _ hread (by decide), hload]
    simp only [parseMessage, triggerLibrary, if_true]
    rfl
  exact ⟨by decide, fun _ => ⟨_, hunpack, fun _ => rfl⟩, by decide⟩

theorem triggerPacket_cancel :
    (visit 0 triggerLibrary mipPoint triggerPacket).action = .cancel := by
  have haction := (visit_any 0 triggerLibrary_serializes triggerMessage_request
    triggerPacket_arrives rfl).2
  rwa [if_neg fun h => h.1 rfl] at haction

/-- The trigger passes a point of lower level and is looked after by the next one. -/
theorem journey_meets_iff_lower :
    ∃ visits, Journey 0 triggerLibrary 3 [lowerPoint, mipPoint] triggerMessage visits ∧
      Meets .trigger "any" 3 [lowerPoint, mipPoint] visits := by
  have harrives : Arrives triggerLibrary 3 lowerPoint triggerPacket triggerMessage :=
    ⟨by decide, fun h => absurd h (by decide), by decide⟩
  obtain ⟨hpasses, hsent⟩ := visit_of_lower 0 harrives (by decide)
  have hj : Journey 0 triggerLibrary 3 [lowerPoint, mipPoint] triggerMessage
      [visit 0 triggerLibrary lowerPoint triggerPacket,
       visit 0 triggerLibrary mipPoint triggerPacket] := by
    refine .leaves lowerPoint _ _ triggerPacket triggerPacket _ harrives hpasses.2 ?_
    rw [hsent]
    exact .stays mipPoint [] _ triggerPacket triggerPacket_arrives triggerPacket_cancel
  refine ⟨_, hj, ?_⟩
  refine (journey_meets_iff 0 triggerLibrary_serializes hj triggerMessage_request).1.mpr ?_
  rintro ⟨-, ⟨-, hcut⟩ | ⟨hno, -⟩⟩
  · rw [cutShort_lower (by decide), cutShort_not_lower (by decide)] at hcut
    exact hcut.2.2 rfl
  · exact hno triggerMessage_hasNumbers

/-- Of two points the second does not see the trigger. -/
theorem trigger_cut_short :
    ∃ visits, Journey 0 triggerLibrary 3 [mipPoint, secondPoint] triggerMessage visits ∧
      Request .trigger "any" triggerMessage ∧ visits.length = 1 ∧
      ¬ Meets .trigger "any" 3 [mipPoint, secondPoint] visits := by
  refine ⟨_, .stays mipPoint [secondPoint] _ triggerPacket triggerPacket_arrives
    triggerPacket_cancel, triggerMessage_request, rfl, ?_⟩
  have hlevel : mipPoint.level = 3 := rfl
  rw [Meets, if_pos rfl, seenByAll_level hlevel]
  rintro ⟨-, -, h⟩
  rw [if_neg (by decide), seenByAll_nil_iff] at h
  cases h

end Dnt
