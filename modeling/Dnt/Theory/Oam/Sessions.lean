import Dnt.Core.OamSession

/-!
# Live OAM Sessions

A book that is kept from outside says who got which number, and when a session was
touched last. A session in the book is live as long as it is not timed out. Nothing of
this needs a clock that does not go back.

## Main definitions

* `SessionBook`, `bookOf`: The book, and what the trackers have of it.
* `AllocatesFree`: An allocation returns a number whose session is not live, or `-1` if there
  is none, and live sessions stay as they are.

## Theorems

* `bookedRun_allocatesFree`: All allocations of a run do so.
-/

namespace Dnt

open Function

open Mealy

variable {ρ : Type*}

/-! ### The book -/

/-- A session that was given to a request and not stopped since. -/
structure Held (ρ : Type*) where
  req : ρ
  connName : Option String
  intervalMs : Nat
  touched : Int

abbrev SessionBook (ρ : Type*) := String → Fin 16 → Option (Held ρ)

/-- A call and its result. Only these two tell what happened. -/
def SessionBook.after (b : SessionBook ρ) (e : SessionEvent ρ) (result : Int) : SessionBook ρ :=
  fun name i =>
    match e with
    | .alloc now streamName req connName intervalMs =>
      if name = streamName ∧ result = (i : Nat) then some ⟨req, connName, intervalMs, now⟩
      else b name i
    | .stop streamName session =>
      if name = streamName ∧ session = (i : Nat) then none else b name i
    | .stopAll conn => (b name i).filter fun held => held.connName ≠ conn
    | .recv now streamName session =>
      if name = streamName ∧ session = i then
        (b name i).map fun held => { held with touched := now }
      else b name i
    | .sent now streamName session =>
      if name = streamName ∧ session = i then
        (b name i).map fun held => { held with touched := now }
      else b name i

/-- The session is held, and not timed out: the timeout counts from a second after it
was touched. -/
def SessionBook.Live (b : SessionBook ρ) (now : Int) (name : String) (i : Fin 16) : Prop :=
  ∃ held, b name i = some held ∧ now ≤ held.touched + 1 + sessionTimeout held.intervalMs

/-! ### The trackers -/

/-- The tracker of a session. A stream that is not there has none in use. -/
def trackerOf (ids : SessionIds ρ) (name : String) (i : Fin 16) : SessionTracker ρ :=
  ((hashmapFind ids name).getD newStreamSessions).sessions i

def SessionTracker.held (s : SessionTracker ρ) : Option (Held ρ) :=
  s.req.map fun req => ⟨req, s.connName, s.intervalMs, s.accessTime - 1⟩

def bookOf (ids : SessionIds ρ) : SessionBook ρ :=
  fun name i => (trackerOf ids name i).held

def SessionTracker.counts (s : SessionTracker ρ) : Nat × Nat :=
  (s.sent, s.recv)

/-- The loop goes past this session. -/
def SessionTracker.busy (s : SessionTracker ρ) (now : Int) : Bool :=
  s.req.isSome && !sessionTimeouted s now

variable (ids : SessionIds ρ) (s : SessionTracker ρ)

theorem live_bookOf_iff (now : Int) (name : String) (i : Fin 16) :
    (bookOf ids).Live now name i ↔ (trackerOf ids name i).busy now = true := by
  simp only [SessionBook.Live, bookOf, SessionTracker.held, SessionTracker.busy, sessionTimeouted]
  cases hreq : (trackerOf ids name i).req with
  | none => simp
  | some req =>
    simp only [Option.map_some, Option.some_inj, exists_eq_left', Option.isSome_some,
      Bool.true_and, Bool.not_eq_true', decide_eq_false_iff_not]
    omega

theorem getStreamSessions_snd (name : String) :
    (getStreamSessions ids name).2 = (hashmapFind ids name).getD newStreamSessions := by
  unfold getStreamSessions
  cases hashmapFind ids name with
  | none | some stream => rfl

theorem trackerOf_getStreamSessions (name name' : String) (i : Fin 16) :
    trackerOf (getStreamSessions ids name).1 name' i = trackerOf ids name' i := by
  simp only [trackerOf, getStreamSessions]
  cases hfind : hashmapFind ids name with
  | some stream => rfl
  | none =>
    rw [hashmapFind_insert]
    grind

theorem trackerOf_insert (name : String) (stream : StreamSessions ρ)
    (name' : String) (i : Fin 16) :
    trackerOf (hashmapInsert (getStreamSessions ids name).1 name stream) name' i =
      if name' = name then stream.sessions i else trackerOf ids name' i := by
  unfold trackerOf getStreamSessions
  by_cases h : name' = name
  · rw [hashmapFind_insert, if_pos h.symm, if_pos h]
    rfl
  · rw [hashmapFind_insert, if_neg (Ne.symm h), if_neg h]
    cases hfind : hashmapFind ids name with
    | none => rw [hashmapFind_insert, if_neg (Ne.symm h)]
    | some old => rfl

@[simp] theorem StreamSessions.set_sessions_self (stream : StreamSessions ρ) (i : Fin 16)
    (s : SessionTracker ρ) : (stream.set i s).sessions i = s :=
  update_self _ _ _

theorem StreamSessions.set_sessions_of_ne (stream : StreamSessions ρ) {i j : Fin 16} (h : j ≠ i)
    (s : SessionTracker ρ) : (stream.set i s).sessions j = stream.sessions j :=
  update_of_ne h _ _

/-! ### Looking for a session -/

/-- The session is freed, if it has to be. -/
def StreamSessions.freed (stream : StreamSessions ρ) (i : Fin 16) : StreamSessions ρ :=
  stream.set i (stopSessionLocked (stream.sessions i)).1

theorem stopSessionLocked_req : (stopSessionLocked s).1.req = none := by grind [stopSessionLocked]

theorem counts_stopSessionLocked :
    (stopSessionLocked s).1.counts = s.counts := by
  unfold stopSessionLocked
  cases s.req with
  | none | some req => rfl

theorem freed_of_isNone {stream : StreamSessions ρ} {i : Fin 16}
    (h : (stream.sessions i).req = none) : stream.freed i = stream := by
  have hstop : (stopSessionLocked (stream.sessions i)).1 = stream.sessions i := by
    rw [stopSessionLocked, h]
  rw [StreamSessions.freed, hstop, StreamSessions.set, update_eq_self]

/-- The loop after `k` rounds, all of them past busy sessions: it stops at a session
that is not busy, or has been at all of them and is back at the first. -/
theorem allocLoop_spec (stream : StreamSessions ρ) (now : Int) (nextId : Fin 16) (fuel k : Nat)
    (id : Fin 16) (hfuel : fuel + 1 + k = 16) (hid : id.val = (nextId.val + k) % 16)
    (hbusy : ∀ j < k, ∀ i : Fin 16, i.val = (nextId.val + j) % 16 →
      (stream.sessions i).busy now = true) : (∃ i, (stream.sessions i).busy now = false ∧
        allocLoop stream now nextId (fuel + 1) id = (stream.freed i, i)) ∨
      ((∀ i, (stream.sessions i).busy now = true) ∧
        allocLoop stream now nextId (fuel + 1) id = (stream, nextId)) := by
  have hnext : (id + 1).val = (nextId.val + (k + 1)) % 16 := by
    rw [Fin.val_add, hid]
    omega
  by_cases hreq : (stream.sessions id).req = none
  · refine .inl ⟨id, by rw [SessionTracker.busy, hreq]; rfl, ?_⟩
    simp [allocLoop, hreq, freed_of_isNone hreq]
  by_cases htimeout : sessionTimeouted (stream.sessions id) now = true
  · refine .inl ⟨id, by rw [SessionTracker.busy, htimeout, Bool.not_true, Bool.and_false], ?_⟩
    simp [allocLoop, hreq, htimeout, StreamSessions.freed]
  have hhere : (stream.sessions id).busy now = true := by
    simp [SessionTracker.busy, Option.isSome_iff_ne_none, hreq, htimeout]
  have hsofar : ∀ j < k + 1, ∀ i : Fin 16, i.val = (nextId.val + j) % 16 →
      (stream.sessions i).busy now = true := by
    intro j hj i hi
    by_cases hjk : j = k
    · subst hjk
      rwa [Fin.ext (hi.trans hid.symm)]
    · exact hbusy j (by omega) i hi
  by_cases hround : id + 1 = nextId
  · -- all sixteen are busy
    have hk : k + 1 = 16 := by
      have := congrArg Fin.val hround
      omega
    refine .inr ⟨fun i => ?_, ?_⟩
    · refine hsofar ((i.val + 16 - nextId.val) % 16) (by omega) i ?_
      omega
    · simp [allocLoop, hreq, htimeout, hround]
  · have hgo : allocLoop stream now nextId (fuel + 1) id =
        allocLoop stream now nextId fuel (id + 1) := by
      simp [allocLoop, hreq, htimeout, hround]
    cases fuel with
    | zero =>
      refine absurd (Fin.ext ?_) hround
      omega
    | succ fuel =>
      rw [hgo]
      exact allocLoop_spec stream now nextId fuel (k + 1) (id + 1) (by omega) hnext hsofar

/-- What an allocation does to the trackers: it takes one that is not busy, or there
is none and nothing changes. -/
theorem allocSessionId_cases (now : Int) (name : String) (req : ρ)
    (connName : Option String) (intervalMs : Nat) :
    (∃ i : Fin 16, (trackerOf ids name i).busy now = false ∧
      (allocSessionId ids now name req connName intervalMs).2 = (i.val : Int) ∧
      ∀ name' j, (name' = name ∧ j = i →
          (trackerOf (allocSessionId ids now name req connName intervalMs).1 name' j).held =
            some ⟨req, connName, intervalMs, now⟩ ∧
          (trackerOf (allocSessionId ids now name req connName intervalMs).1 name' j).counts =
            (trackerOf ids name' j).counts) ∧ (¬ (name' = name ∧ j = i) →
          trackerOf (allocSessionId ids now name req connName intervalMs).1 name' j =
            trackerOf ids name' j)) ∨ ((∀ i, (trackerOf ids name i).busy now = true) ∧
      (allocSessionId ids now name req connName intervalMs).2 = -1 ∧
      ∀ name' j, trackerOf (allocSessionId ids now name req connName intervalMs).1 name' j =
        trackerOf ids name' j) := by
  have hstream := getStreamSessions_snd ids name
  have hold (i : Fin 16) : (getStreamSessions ids name).2.sessions i = trackerOf ids name i := by
    rw [hstream, trackerOf]
  obtain ⟨i, hfree, hloop⟩ | ⟨hall, hloop⟩ := allocLoop_spec (getStreamSessions ids name).2 now
    ((getStreamSessions ids name).2.lastSession + 1) 15 0
    ((getStreamSessions ids name).2.lastSession + 1) rfl (by omega) (fun j hj => by omega)
  · rw [hold] at hfree
    have hreq : (((getStreamSessions ids name).2.freed i).sessions i).req = none := by
      rw [StreamSessions.freed, StreamSessions.set_sessions_self]
      exact stopSessionLocked_req _
    refine .inl ⟨i, hfree, ?_⟩
    unfold allocSessionId
    simp only [hloop, hreq]
    refine ⟨trivial, fun name' j => ⟨?_, fun hne => ?_⟩⟩
    · rintro ⟨rfl, rfl⟩
      rw [trackerOf_insert, if_pos rfl, ← hold]
      refine ⟨by simp [SessionTracker.held], ?_⟩
      simpa [SessionTracker.counts, StreamSessions.freed] using
        counts_stopSessionLocked ((getStreamSessions ids name').2.sessions j)
    · rw [trackerOf_insert]
      by_cases hname : name' = name
      · have hj : j ≠ i := fun hj => hne ⟨hname, hj⟩
        rw [if_pos hname, hname, ← hold]
        simp only [StreamSessions.freed, StreamSessions.set_sessions_of_ne _ hj]
      · rw [if_neg hname]
  · have hbusy (i : Fin 16) : (trackerOf ids name i).busy now = true := hold i ▸ hall i
    -- the loop ends at a session that is in use
    obtain ⟨old, hreq⟩ : ∃ old, ((getStreamSessions ids name).2.sessions
        ((getStreamSessions ids name).2.lastSession + 1)).req = some old := by
      have := hall ((getStreamSessions ids name).2.lastSession + 1)
      rw [SessionTracker.busy, Bool.and_eq_true] at this
      exact Option.isSome_iff_exists.mp this.1
    refine .inr ⟨hbusy, ?_⟩
    unfold allocSessionId
    simp only [hloop, hreq]
    refine ⟨trivial, fun name' j => ?_⟩
    rw [trackerOf_insert]
    grind

/-! ### The trackers agree with the book -/

theorem held_stopSessionLocked : (stopSessionLocked s).1.held = none := by
  rw [SessionTracker.held, stopSessionLocked_req, Option.map_none]

theorem commandConnectionIsSame_iff (conn name : Option String) :
    commandConnectionIsSame conn name = true ↔ name = conn := by
  cases conn with
  | none => cases name <;> simp [commandConnectionIsSame]
  | some conn =>
    cases name with
    | none => simp [commandConnectionIsSame]
    | some name =>
      simp only [commandConnectionIsSame, beq_iff_eq, Option.some_inj]
      exact eq_comm

theorem held_stopOfConnection (conn : Option String) (s : SessionTracker ρ) :
    (stopOfConnection conn s).1.held = s.held.filter fun held => held.connName ≠ conn := by
  unfold stopOfConnection
  by_cases hreq : s.req = none
  · have hheld : s.held = none := by rw [SessionTracker.held, hreq, Option.map_none]
    rw [if_pos (by rw [hreq]; rfl), hheld, Option.filter_none]
  obtain ⟨req, hreq'⟩ := Option.ne_none_iff_exists'.mp hreq
  have hheld : s.held = some ⟨req, s.connName, s.intervalMs, s.accessTime - 1⟩ := by
    rw [SessionTracker.held, hreq', Option.map_some]
  rw [if_neg (by simp [hreq'])]
  by_cases hconn : s.connName = conn
  · rw [if_pos ((commandConnectionIsSame_iff conn s.connName).mpr hconn),
      held_stopSessionLocked, hheld, Option.filter_some, if_neg (by simp [hconn])]
  · rw [if_neg (fun hsame => hconn ((commandConnectionIsSame_iff conn s.connName).mp hsame)),
      hheld, Option.filter_some, if_pos (by simp [hconn])]

theorem trackerOf_set (name : String) (i : Fin 16) (s : SessionTracker ρ)
    (name' : String) (j : Fin 16) :
    trackerOf (hashmapInsert (getStreamSessions ids name).1 name
        ((getStreamSessions ids name).2.set i s)) name' j =
      if name' = name ∧ i = j then s else trackerOf ids name' j := by
  rw [trackerOf_insert]
  by_cases hname : name' = name
  · by_cases hj : i = j
    · subst hj
      rw [if_pos hname, if_pos ⟨hname, rfl⟩, StreamSessions.set_sessions_self]
    · rw [if_pos hname, if_neg (fun h => hj h.2),
        StreamSessions.set_sessions_of_ne _ (Ne.symm hj), hname, trackerOf, getStreamSessions_snd]
  · rw [if_neg hname, if_neg (fun h => hname h.1)]

theorem bookOf_insert (name : String) (i : Fin 16) (s : SessionTracker ρ)
    (name' : String) (j : Fin 16) :
    bookOf (hashmapInsert (getStreamSessions ids name).1 name
        ((getStreamSessions ids name).2.set i s)) name' j =
      if name' = name ∧ i = j then s.held else bookOf ids name' j := by
  rw [bookOf, trackerOf_set, apply_ite SessionTracker.held, bookOf]

theorem held_touched (now : Int) (sent recv : Nat) :
    ({ s with accessTime := now + 1, sent := sent, recv := recv } : SessionTracker ρ).held =
      s.held.map fun held => { held with touched := now } := by
  simp [SessionTracker.held, comp_def]

theorem bookOf_touch {now : Int} (name : String) (i : Fin 16)
    {touch : SessionTracker ρ → SessionTracker ρ}
    (htouch : ∀ s, (touch s).held = s.held.map fun held => { held with touched := now })
    (name' : String) (j : Fin 16) :
    bookOf (hashmapInsert (getStreamSessions ids name).1 name ((getStreamSessions ids name).2.set i
        (touch ((getStreamSessions ids name).2.sessions i)))) name' j =
      if name' = name ∧ i = j then
        (bookOf ids name' j).map fun held => { held with touched := now }
      else bookOf ids name' j := by
  rw [bookOf_insert]
  by_cases h : name' = name ∧ i = j
  · rw [if_pos h, if_pos h, htouch, h.1, ← h.2, bookOf, trackerOf, getStreamSessions_snd]
  · rw [if_neg h, if_neg h]

theorem bookOf_alloc (now : Int) (streamName : String) (req : ρ)
    (connName : Option String) (intervalMs : Nat) (name : String) (j : Fin 16) :
    bookOf (allocSessionId ids now streamName req connName intervalMs).1 name j =
      if name = streamName ∧
          (allocSessionId ids now streamName req connName intervalMs).2 = (j.val : Int) then
        some ⟨req, connName, intervalMs, now⟩
      else bookOf ids name j := by
  obtain ⟨i, -, hresult, htrackers⟩ | ⟨-, hresult, htrackers⟩ :=
    allocSessionId_cases ids now streamName req connName intervalMs
  · rw [hresult]
    by_cases hsame : name = streamName ∧ j = i
    · rw [if_pos ⟨hsame.1, by rw [hsame.2]⟩]
      exact ((htrackers name j).1 hsame).1
    · rw [if_neg (fun h => hsame ⟨h.1, Fin.ext (by omega)⟩), bookOf, bookOf,
        (htrackers name j).2 hsame]
  · rw [hresult, if_neg (fun h => by omega), bookOf, bookOf, htrackers]

theorem trackerOf_stopAll (conn : Option String) (name : String) (j : Fin 16) :
    trackerOf (stopAllSessionsOfConnection ids conn).1 name j =
      (stopOfConnection conn (trackerOf ids name j)).1 := by
  have hfind := hashmapFind_map (fun stream : StreamSessions ρ =>
    { stream with sessions := fun i => (stopOfConnection conn (stream.sessions i)).1 }) ids name
  simp only [trackerOf, stopAllSessionsOfConnection]
  rw [hfind]
  cases hashmapFind ids name with
  | none | some stream => rfl

theorem bookOf_step (e : SessionEvent ρ) :
    bookOf (sessionStep ids e).1 = (bookOf ids).after e (sessionStep ids e).2 := by
  funext name j
  cases e with
  | alloc now streamName req connName intervalMs =>
    exact bookOf_alloc ids now streamName req connName intervalMs name j
  | stop streamName session =>
    simp only [sessionStep, stopSession, SessionBook.after]
    split_ifs with hsession hsame hsame
    · rw [bookOf_insert, if_pos ⟨hsame.1, Fin.ext hsame.2⟩, held_stopSessionLocked]
    · rw [bookOf_insert, if_neg (fun h => hsame ⟨h.1, congrArg Fin.val h.2⟩)]
    · omega
    · rw [bookOf, trackerOf_getStreamSessions, bookOf]
  | stopAll conn =>
    rw [bookOf, sessionStep, trackerOf_stopAll, held_stopOfConnection]
    rfl
  | recv now streamName session =>
    exact bookOf_touch ids streamName session (fun s => held_touched s now s.sent _) name j
  | sent now streamName session =>
    exact bookOf_touch ids streamName session (fun s => held_touched s now _ s.recv) name j

/-- The calls, with the book beside the trackers. -/
def bookedStep (s : SessionIds ρ × SessionBook ρ) (e : SessionEvent ρ) :
    (SessionIds ρ × SessionBook ρ) × Int :=
  (((sessionStep s.1 e).1, s.2.after e (sessionStep s.1 e).2), (sessionStep s.1 e).2)

/-- What an allocation has to do, by the book: a number from `0` to `15` that no live
session has, unless all are live, and only then `-1`. Live sessions of any stream
keep their tracker. -/
def AllocatesFree (s : SessionIds ρ × SessionBook ρ) : SessionEvent ρ → Prop
  | .alloc now streamName req connName intervalMs =>
    let next := bookedStep s (.alloc now streamName req connName intervalMs)
    (next.2 = -1 ∨ ∃ i : Fin 16, next.2 = (i.val : Int) ∧ ¬ s.2.Live now streamName i) ∧
      (next.2 = -1 ↔ ∀ i, s.2.Live now streamName i) ∧
      ∀ name i, s.2.Live now name i →
        trackerOf next.1.1 name i = trackerOf s.1 name i ∧ next.1.2 name i = s.2 name i
  | _ => True

theorem allocSessionId_free (e : SessionEvent ρ) :
    AllocatesFree (ids, bookOf ids) e := by
  cases e with
  | alloc now streamName req connName intervalMs =>
    have hbook := bookOf_step ids (.alloc now streamName req connName intervalMs)
    simp only [AllocatesFree, bookedStep, ← hbook]
    simp only [sessionStep, live_bookOf_iff]
    obtain ⟨i, hfree, hresult, htrackers⟩ | ⟨hall, hresult, htrackers⟩ :=
      allocSessionId_cases ids now streamName req connName intervalMs
    · have hfree' : ¬ (trackerOf ids streamName i).busy now = true := by simp [hfree]
      refine ⟨.inr ⟨i, hresult, hfree'⟩, ⟨fun h => ?_, fun hall => ?_⟩, fun name j hlive => ?_⟩
      · rw [hresult] at h
        omega
      · exact absurd (hall i) hfree'
      · -- what is live is not the session that was free
        have hne : ¬ (name = streamName ∧ j = i) := by
          rintro ⟨rfl, rfl⟩
          exact hfree' hlive
        have hkeep := (htrackers name j).2 hne
        exact ⟨hkeep, by rw [bookOf, bookOf, hkeep]⟩
    · refine ⟨.inl hresult, ⟨fun _ => hall, fun _ => hresult⟩, fun name j _ => ?_⟩
      exact ⟨htrackers name j, by rw [bookOf, bookOf, htrackers]⟩
  | stop streamName session | stopAll conn | recv now streamName session
  | sent now streamName session => trivial

/-- From no sessions and an empty book on, every allocation of every run. -/
theorem bookedRun_allocatesFree (es : List (SessionEvent ρ)) :
    EveryStep bookedStep AllocatesFree ([], fun _ _ => none) es := by
  refine everyStep_of_invariant (fun s => s.2 = bookOf s.1) (fun _ _ => True) _ ?_ ?_ es
    (everyStep_true _ es)
  · rintro ⟨ids, b⟩ e hb -
    simp only at hb
    subst hb
    exact ⟨(bookOf_step ids e).symm, allocSessionId_free ids e⟩
  · rfl

end Dnt
