import Dnt.Core.Elim

/-!
# Recovery of OAM Sessions

The recovery objects for the maintenance layer are found by the name of the session.
So data packets, their timer, and other sessions do not show in what is decided
about the messages of a session. If the thread of the timer cannot be started the message
passes, and nothing is remembered.

## Main definitions

* `sessionDecisions`: What is decided about the messages of a session.
* `LastPassed.step`: A memory for the last number, which the timer of the session clears.
* `Remembers`: The recovery object of a session knows this number.

## Theorems

* `sessionDecisions_independent`: In every run the decisions are those of a fresh object that
  only sees the session, and those of the memory.
-/

namespace Dnt

open Mealy

variable {recs : HashMap SequenceRecovery} {e : RcvyEvent} {session : String}

/-- The event is a message of this session, or its timer. -/
def RcvyEvent.concerns (session : String) : RcvyEvent → Bool
  | .oam name _ _ => name == session
  | .expire name => name == session
  | .data _ => false
  | .reset => false

def ElimState.sessionRcvy (session : String) (s : ElimState) : Option SequenceRecovery :=
  hashmapFind s.oamSeqRecoveries session

/-- What is decided about the messages of the session in a run. There is no decision
where its timer is over. -/
def sessionDecisions (session : String) (s : ElimState) (es : List RcvyEvent) :
    List (Option Bool) :=
  (observed rcvyStep (RcvyEvent.concerns session) (ElimState.sessionRcvy session) s es).map
    Prod.fst

/-! ### The memory for one number -/

/-- The number of the last message that passed since the timer was over, and what it
means for the next one. -/
def LastPassed.step (last : Option UInt8) : RcvyEvent → Option UInt8 × Option Bool
  | .oam _ seq _ => if last = some seq then (last, some false) else (some seq, some true)
  | .expire _ => (none, none)
  | _ => (last, none)

/-- The same where the first message may not get a recovery object. -/
def LastPassed.stepLaunched (last : Option UInt8) (e : RcvyEvent) : Option UInt8 × Option Bool :=
  match last, e with
  | none, .oam _ _ false => (none, some true)
  | _, _ => LastPassed.step last e

/-- The recovery object of a session knows this number. -/
def Remembers (rec : Option SequenceRecovery) (last : Option UInt8) : Prop :=
  match rec, last with
  | none, none => True
  | some rec, some seq => rec.regular.takeAny = false ∧ rec.regular.recvSeq = seq.toNat
  | _, _ => False

theorem matchSeqRecovery_takeAny (rec : SequenceRecovery) (seq : UInt8)
    (h : rec.regular.takeAny = true) : (matchSeqRecovery rec seq.toNat).1 = true ∧
      Remembers (some (matchSeqRecovery rec seq.toNat).2) (some seq) := by
  have hlt := seq.toNat_lt
  simp only [matchSeqRecovery, h, if_true]
  refine ⟨trivial, rfl, ?_⟩
  show seq.toNat % 65536 = seq.toNat
  omega

variable (seq : UInt8) (launched : Bool)

/-- A recovery object that knows a number. Numbers have eight bits here, so it is the
same number exactly if the distance in the larger space is zero. -/
theorem matchSeqRecovery_known {rec : SequenceRecovery} {last : UInt8}
    (h : Remembers (some rec) (some last)) :
    (matchSeqRecovery rec seq.toNat).1 = decide (last ≠ seq) ∧
      Remembers (some (matchSeqRecovery rec seq.toNat).2) (some seq) := by
  obtain ⟨htake, hlast⟩ := h
  have hlt := seq.toNat_lt
  have hlt' := last.toNat_lt
  have hmod : seq.toNat % 65536 = seq.toNat := by omega
  simp only [matchSeqRecovery, htake, hlast, hmod, Bool.false_eq_true, if_false, frerRcvySeqSpace]
  by_cases heq : last = seq
  · subst heq
    simp only [sub_self, Int.zero_emod, if_true, ne_eq, not_true, decide_false, true_and]
    split_ifs
    all_goals exact ⟨htake, hlast⟩
  · have hne : last.toNat ≠ seq.toNat := fun h => heq (UInt8.toNat_inj.mp h)
    have hdelta : ¬ ((seq.toNat : Int) - last.toNat) % 65536 = 0 := by omega
    simp only [hdelta, if_false, ne_eq, heq, not_false_eq_true, decide_true, true_and]
    exact ⟨rfl, rfl⟩

theorem oamRecovery_spec {last : Option UInt8}
    (h : Remembers (hashmapFind recs session) last) :
    some (oamRecovery recs session seq launched).1 =
        (LastPassed.stepLaunched last (.oam session seq launched)).2 ∧
      Remembers (hashmapFind (oamRecovery recs session seq launched).2 session)
        (LastPassed.stepLaunched last (.oam session seq launched)).1 := by
  cases hfind : hashmapFind recs session with
  | none =>
    cases last with
    | some last =>
      rw [hfind] at h
      exact absurd h id
    | none =>
      cases launched with
      | false =>
        simp only [oamRecovery, getOamRcvy, hfind, Bool.false_eq_true, if_false,
          LastPassed.stepLaunched]
        exact ⟨trivial, trivial⟩
      | true =>
        obtain ⟨hpass, hknows⟩ := matchSeqRecovery_takeAny
          (newSeqRec .rcvyMatch false false 0 oamRcvyResetMs) seq rfl
        simp only [oamRecovery, getOamRcvy, hfind, if_true, LastPassed.stepLaunched,
          LastPassed.step, hashmapFind_insert, reduceCtorEq, if_false]
        exact ⟨congrArg some hpass, hknows⟩
  | some rec =>
    cases last with
    | none =>
      rw [hfind] at h
      exact absurd h id
    | some last =>
      rw [hfind] at h
      obtain ⟨hpass, hknows⟩ := matchSeqRecovery_known seq h
      simp only [oamRecovery, getOamRcvy, hfind, LastPassed.stepLaunched, LastPassed.step,
        hashmapFind_insert, if_true, Option.some_inj, hpass]
      by_cases heq : last = seq
      · subst heq
        simp only [if_true, ne_eq, not_true, decide_false, true_and]
        exact hknows
      · simp only [heq, if_false, ne_eq, not_false_eq_true, decide_true, true_and]
        exact hknows

/-! ### Events of a session, and others -/

theorem oamRecovery_congr {recs' : HashMap SequenceRecovery}
    (h : hashmapFind recs session = hashmapFind recs' session) :
    (oamRecovery recs session seq launched).1 = (oamRecovery recs' session seq launched).1 ∧
      hashmapFind (oamRecovery recs session seq launched).2 session =
        hashmapFind (oamRecovery recs' session seq launched).2 session := by
  simp only [oamRecovery, getOamRcvy, h]
  cases hfind : hashmapFind recs' session with
  | some rec =>
    simp only [hashmapFind_insert, if_true]
    exact ⟨trivial, trivial⟩
  | none =>
    cases launched with
    | false =>
      simp only [Bool.false_eq_true, if_false]
      exact ⟨trivial, h.trans rfl⟩
    | true =>
      simp only [if_true, hashmapFind_insert]
      exact ⟨trivial, trivial⟩

theorem hashmapFind_oamRecovery_of_ne {name : String}
    (h : name ≠ session) :
    hashmapFind (oamRecovery recs name seq launched).2 session = hashmapFind recs session := by
  grind [oamRecovery, hashmapFind_insert]

theorem rcvyStep_congr {s t : ElimState} (he : e.concerns session = true)
    (h : s.sessionRcvy session = t.sessionRcvy session) : (rcvyStep s e).2 = (rcvyStep t e).2 ∧
      (rcvyStep s e).1.sessionRcvy session = (rcvyStep t e).1.sessionRcvy session := by
  cases e with
  | oam name seq launched =>
    obtain rfl := beq_iff_eq.mp he
    obtain ⟨hpass, hfind⟩ := oamRecovery_congr seq launched h
    exact ⟨congrArg some hpass, hfind⟩
  | expire name =>
    obtain rfl := beq_iff_eq.mp he
    refine ⟨rfl, ?_⟩
    simp only [rcvyStep, ElimState.sessionRcvy, hashmapFind_remove, if_true]
  | data sequence | reset => cases he

theorem rcvyStep_other (s : ElimState) (he : e.concerns session = false) :
    (rcvyStep s e).1.sessionRcvy session = s.sessionRcvy session := by
  cases e with
  | oam name seq launched =>
    exact hashmapFind_oamRecovery_of_ne seq launched (beq_eq_false_iff_ne.mp he)
  | expire name =>
    simp only [rcvyStep, ElimState.sessionRcvy, hashmapFind_remove]
    rw [if_neg (beq_eq_false_iff_ne.mp he)]
  | data sequence | reset => rfl

theorem rcvyStep_lastPassed {s : ElimState} {last : Option UInt8} (he : e.concerns session = true)
    (h : Remembers (s.sessionRcvy session) last) :
    (rcvyStep s e).2 = (LastPassed.stepLaunched last e).2 ∧
      Remembers ((rcvyStep s e).1.sessionRcvy session) (LastPassed.stepLaunched last e).1 := by
  cases e with
  | oam name seq launched =>
    obtain rfl := beq_iff_eq.mp he
    exact oamRecovery_spec seq launched h
  | expire name =>
    obtain rfl := beq_iff_eq.mp he
    have hcleared : (rcvyStep s (.expire name)).1.sessionRcvy name = none := by
      simp only [rcvyStep, ElimState.sessionRcvy, hashmapFind_remove, if_true]
    rw [hcleared]
    cases last with
    | none | some last => exact ⟨rfl, trivial⟩
  | data sequence | reset => cases he

/-! ### Runs -/

theorem outputs_lastPassed (s : ElimState) (last : Option UInt8) {es : List RcvyEvent}
    (hes : ∀ e ∈ es, e.concerns session = true) (h : Remembers (s.sessionRcvy session) last) :
    outputs rcvyStep s es = outputs LastPassed.stepLaunched last es := by
  induction es generalizing s last with
  | nil => rfl
  | cons e es ih =>
    obtain ⟨he, hes⟩ := List.forall_mem_cons.mp hes
    obtain ⟨hout, hnext⟩ := rcvyStep_lastPassed he h
    rw [outputs_cons, outputs_cons, hout, ih _ _ hes hnext]

/-- The recovery object for the message could be made, if it had to be. -/
def RcvyEvent.Launched : RcvyEvent → Prop
  | .oam _ _ launched => launched = true
  | _ => True

theorem stepLaunched_of_launched (last : Option UInt8) (he : e.Launched) :
    LastPassed.stepLaunched last e = LastPassed.step last e := by
  cases last with
  | some last => rfl
  | none =>
    cases e with
    | oam name seq launched =>
      obtain rfl : launched = true := he
      rfl
    | data sequence | reset | expire name => rfl

theorem outputs_stepLaunched (last : Option UInt8) {es : List RcvyEvent}
    (hes : ∀ e ∈ es, e.Launched) :
    outputs LastPassed.stepLaunched last es = outputs LastPassed.step last es := by
  induction es generalizing last with
  | nil => rfl
  | cons e es ih =>
    obtain ⟨he, hes⟩ := List.forall_mem_cons.mp hes
    rw [outputs_cons, outputs_cons, stepLaunched_of_launched last he, ih _ hes]

/-- What is decided about the messages of a session is decided as well by a fresh object
that only sees the events of this session. A message is a repetition exactly if the
last one that passed since the timer was over had its number. -/
theorem sessionDecisions_independent (session : String) (rcvy fresh : SequenceRecovery)
    (es : List RcvyEvent) :
    sessionDecisions session ⟨rcvy, []⟩ es =
        sessionDecisions session ⟨fresh, []⟩ (es.filter (RcvyEvent.concerns session)) ∧
      sessionDecisions session ⟨rcvy, []⟩ es =
        outputs LastPassed.stepLaunched none (es.filter (RcvyEvent.concerns session)) ∧
      ((∀ e ∈ es, e.Launched) → sessionDecisions session ⟨rcvy, []⟩ es =
        outputs LastPassed.step none (es.filter (RcvyEvent.concerns session))) := by
  have hkept : ∀ e ∈ es.filter (RcvyEvent.concerns session), e.concerns session = true :=
    fun e he => (List.mem_filter.mp he).2
  have hindependent : sessionDecisions session ⟨rcvy, []⟩ es =
      sessionDecisions session ⟨fresh, []⟩ (es.filter (RcvyEvent.concerns session)) := by
    refine congrArg (List.map Prod.fst) (observed_filter (s := ElimState.mk rcvy [])
      (t := ElimState.mk fresh []) _ _ ?_ rfl es ?_)
    · exact fun s t e he h => rcvyStep_congr he h
    · refine everyStep_of_invariant (fun _ => True) (fun _ _ => True) _ ?_ trivial es
        (everyStep_true _ es)
      exact fun s e _ _ => ⟨trivial, rcvyStep_other s⟩
  have hmemory : sessionDecisions session ⟨rcvy, []⟩ es =
      outputs LastPassed.stepLaunched none (es.filter (RcvyEvent.concerns session)) := by
    rw [hindependent, sessionDecisions, map_fst_observed_of_forall _ _ _ _ hkept]
    exact outputs_lastPassed _ none hkept trivial
  refine ⟨hindependent, hmemory, fun hlaunched => ?_⟩
  rw [hmemory]
  exact outputs_stepLaunched none fun e he => hlaunched e (List.mem_filter.mp he).1

end Dnt
