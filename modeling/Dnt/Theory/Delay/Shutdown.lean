import Mathlib.Data.List.Infix
import Dnt.Library.Mealy
import Dnt.Core.DelayMbox

/-!
# Retiring a Mailbox

A delay thread that shuts down retires its mailbox, sleeps, and looks into it once
more, so that threads that had found the mailbox can still push. Nothing makes them
push in time, though.

## Main definitions

* `NoStraggler`: A thread that leaves its loop has an empty mailbox that nobody else knows.
* `ThreadMove`: What the next step of the owner of a mailbox can be.
* `delayWork`: The steps it needs to take the packets of a mailbox.

## Theorems

* `delaySystem_keepsPackets`: In an interleaving without stragglers every push finds its
  mailbox, and every packet is taken after a number of steps that is known when it is
  pushed. In every other interleaving, the same threads can lose a packet.
-/

namespace Dnt

open Function

open Mealy

variable {ι : Type*}
variable {s : DelaySystem ι} {r : DelaySystem ι × MboxOutput ι} {box : List (DelayedPacket ι)}
  {as : List (MboxAction ι)} {a : MboxAction ι} {m : Nat}

/-- No push into a deleted mailbox, and no packets in a mailbox when it is
deleted. -/
def KeepsPackets (s : DelaySystem ι) (a : MboxAction ι) : Prop :=
  (delaySystemStep s a).2.dangling = false ∧ (delaySystemStep s a).2.lost = []

/-- The next step takes the thread out of its loop: it is not the owner of the
current mailbox, or it found nothing in its last look. -/
def Leaves (s : DelaySystem ι) (m : Nat) (box : List (DelayedPacket ι)) : Prop :=
  ((s.threads m).phase = .idle ∧ s.mbox ≠ some m) ∨ ((s.threads m).phase = .sleeping ∧ box = [])

/-- No inserting thread is about to push into the mailbox. -/
def Unheld (s : DelaySystem ι) (m : Nat) : Prop :=
  ∀ i p, s.inserters i ≠ some (m, p)

/-- A thread that leaves its loop has an empty mailbox, and nobody is about to
push into it. -/
def NoStraggler (s : DelaySystem ι) : MboxAction ι → Prop
  | .thread m _ _ => ∀ box, s.boxes m = some box → Leaves s m box → box = [] ∧ Unheld s m
  | _ => True

/-! ## The steps of a delay thread -/

/-- A thread in its loop has packets or time, and outside it has no packets. -/
structure ThreadOk (t : DelayThread ι) : Prop where
  ne_gone : t.phase ≠ .gone
  ne_crashed : t.phase ≠ .crashed
  empty : t.phase ≠ .waiting → t.queue = []
  timeout : t.phase = .waiting → t.queue = [] → t.timeoutUs > 0

/-- What the next step of the owner of mailbox `m` can be, with `box` in it. -/
inductive ThreadMove (s : DelaySystem ι) (m : Nat) :
    List (DelayedPacket ι) → DelaySystem ι × MboxOutput ι → Prop
  | take (t : DelayThread ι) (p : DelayedPacket ι) (rest : List (DelayedPacket ι))
      (hphase : (s.threads m).phase = .waiting ∨ (s.threads m).phase = .sleeping)
      (ht : ThreadOk t) (hwaiting : t.phase = .waiting)
      (hlength : t.queue.length = (s.threads m).queue.length + 1) :
      ThreadMove s m (p :: rest)
        ({ s with
            threads := update s.threads m t
            boxes := update s.boxes m (some rest) }, ⟨false, some (m, p), []⟩)
  | send (t : DelayThread ι) (box : List (DelayedPacket ι))
      (hphase : (s.threads m).phase = .waiting) (ht : ThreadOk t) (hwaiting : t.phase = .waiting)
      (hlength : (s.threads m).queue.length = t.queue.length + 1) :
      ThreadMove s m box ({ s with threads := update s.threads m t }, .silent)
  | rest (t : DelayThread ι) (hphase : (s.threads m).phase = .waiting) (ht : ThreadOk t)
      (hidle : t.phase = .idle) :
      ThreadMove s m [] ({ s with threads := update s.threads m t }, .silent)
  | retire (t : DelayThread ι) (box : List (DelayedPacket ι))
      (hphase : (s.threads m).phase = .idle) (hmbox : s.mbox = some m) (ht : ThreadOk t)
      (hsleeping : t.phase = .sleeping) :
      ThreadMove s m box
        ({ s with threads := update s.threads m t, mbox := none }, .silent)
  | leave (t : DelayThread ι) (box : List (DelayedPacket ι)) (hleaves : Leaves s m box)
      (hmbox : s.mbox ≠ some m) (ht : ThreadOk t) (hexiting : t.phase = .exiting) :
      ThreadMove s m box ({ s with threads := update s.threads m t }, .silent)
  | delete (t : DelayThread ι) (box : List (DelayedPacket ι))
      (hphase : (s.threads m).phase = .exiting) :
      ThreadMove s m box
        ({ s with
            threads := update s.threads m t
            boxes := update s.boxes m none }, ⟨false, none, box⟩)

open List

theorem length_queueLink {n : DelayElem ι} (l : List (DelayElem ι)) :
    (queueLink n l).length = l.length + 1 := by
  induction l with
  | nil => rfl
  | cons iter rest ih =>
    unfold queueLink
    grind

theorem queuePush_threadOk {t : DelayThread ι} (p : DelayedPacket ι) (now later : Timespec)
    (hphase : t.phase = .waiting) :
    ThreadOk (queuePush t p now later).1 ∧ (queuePush t p now later).1.phase = .waiting ∧
      (queuePush t p now later).1.queue.length = t.queue.length + 1 := by
  have hlength : (queuePush t p now later).1.queue.length = t.queue.length + 1 :=
    length_queueLink t.queue
  have hwaiting : (queuePush t p now later).1.phase = .waiting := hphase
  refine ⟨⟨?_, ?_, ?_, ?_⟩, hwaiting, hlength⟩
  · rw [hwaiting]
    decide
  · rw [hwaiting]
    decide
  · exact fun hne => absurd hwaiting hne
  · intro _ hnil
    rw [hnil] at hlength
    cases hlength

theorem afterPop_take (s : DelaySystem ι) (m : Nat) (p : DelayedPacket ι)
    (rest : List (DelayedPacket ι)) (t : DelayThread ι) (now later : Timespec)
    (hphase : (s.threads m).phase = .waiting ∨ (s.threads m).phase = .sleeping)
    (hwaiting : t.phase = .waiting) (hqueue : t.queue = (s.threads m).queue) :
    ThreadMove s m (p :: rest) (afterPop s m (p :: rest) (queuePush t p now later)) := by
  rcases queuePush_threadOk p now later hwaiting with ⟨hok, hphase', hlength⟩
  rw [hqueue] at hlength
  exact ThreadMove.take _ p rest hphase hok hphase' hlength

theorem threadOk_of_phase {t : DelayThread ι} {phase : DelayPhase} (hqueue : t.queue = [])
    (hphase : phase = .idle ∨ phase = .sleeping ∨ phase = .exiting) :
    ThreadOk { t with phase := phase } := by
  refine ⟨?_, ?_, fun _ => hqueue, ?_⟩
  all_goals rcases hphase with rfl | rfl | rfl <;> exact DelayPhase.noConfusion

theorem afterPop_send (s : DelaySystem ι) (m : Nat) (box : List (DelayedPacket ι))
    (now : Timespec) (hphase : (s.threads m).phase = .waiting) (hok : ThreadOk (s.threads m))
    (hbox : (s.threads m).timeoutUs > 0 → box = []) :
    ThreadMove s m box (afterPop s m box (queueSendFirst (s.threads m) now)) := by
  cases hqueue : (s.threads m).queue with
  | nil =>
    obtain rfl : box = [] := hbox (hok.timeout hphase hqueue)
    rw [queueSendFirst_nil now hqueue]
    exact ThreadMove.rest _ hphase (threadOk_of_phase hqueue (Or.inl rfl)) rfl
  | cons f rest =>
    rw [queueSendFirst_cons now hqueue]
    refine ThreadMove.send _ box hphase ⟨hok.ne_gone, hok.ne_crashed, ?_, ?_⟩ hphase ?_
    · exact fun hne => absurd hphase hne
    · -- nothing left: wait a minute
      rintro - rfl
      exact (by decide : idleTimeoutUs > 0)
    · rw [hqueue]
      rfl

theorem threadStep_move (box : List (DelayedPacket ι)) (now later : Timespec)
    (hok : ThreadOk (s.threads m)) (hactive : s.mbox = some m →
      (s.threads m).phase = .waiting ∨ (s.threads m).phase = .idle) :
    ThreadMove s m box (threadStep s m box now later) := by
  cases hphase : (s.threads m).phase with
  | waiting =>
    by_cases htimeout : (s.threads m).timeoutUs > 0
    · cases box with
      | nil =>
        have hmove := afterPop_send s m [] now hphase hok fun _ => rfl
        simpa only [threadStep, delayStep, hphase, head?_nil, Option.map_none, ite_self]
          using hmove
      | cons p rest =>
        have hmove := afterPop_take s m p rest (s.threads m) now later (Or.inl hphase) hphase
          rfl
        simpa only [threadStep, delayStep, hphase, head?_cons, Option.map_some,
          if_pos htimeout] using hmove
    · have hmove := afterPop_send s m box now hphase hok fun h => absurd h htimeout
      simpa only [threadStep, delayStep, hphase, if_neg htimeout] using hmove
  | idle =>
    have hqueue : (s.threads m).queue = [] := hok.empty (by rw [hphase]; decide)
    by_cases hmbox : s.mbox = some m
    · have hmove := ThreadMove.retire { s.threads m with phase := .sleeping } box hphase
        hmbox (threadOk_of_phase hqueue (Or.inr (Or.inl rfl))) rfl
      simpa only [threadStep, delayStep, hphase, hmbox, decide_true, if_true] using hmove
    · have hmove := ThreadMove.leave { s.threads m with phase := .exiting } box
        (Or.inl ⟨hphase, hmbox⟩) hmbox (threadOk_of_phase hqueue (Or.inr (Or.inr rfl))) rfl
      simpa only [threadStep, delayStep, hphase, decide_eq_true_eq, if_neg hmbox] using hmove
  | sleeping =>
    have hqueue : (s.threads m).queue = [] := hok.empty (by rw [hphase]; decide)
    cases box with
    | nil =>
      have hmbox : s.mbox ≠ some m := by grind
      have hmove := ThreadMove.leave { s.threads m with phase := .exiting } []
        (Or.inr ⟨hphase, rfl⟩) hmbox (threadOk_of_phase hqueue (Or.inr (Or.inr rfl))) rfl
      simpa only [threadStep, delayStep, hphase, head?_nil, Option.map_none, afterPop,
        DelayOutput.silent] using hmove
    | cons p rest =>
      have hmove := afterPop_take s m p rest { s.threads m with phase := .waiting } now later
        (Or.inr hphase) rfl rfl
      simpa only [threadStep, delayStep, hphase, head?_cons, Option.map_some] using hmove
  | exiting =>
    have hmove := ThreadMove.delete (s := s) { s.threads m with phase := .gone } box hphase
    simpa only [threadStep, delayStep, hphase] using hmove
  | gone => exact absurd hphase hok.ne_gone
  | crashed => exact absurd hphase hok.ne_crashed

/-! ## The invariant -/

def Alive (s : DelaySystem ι) (m : Nat) : Prop :=
  ∃ box, s.boxes m = some box

/-- What holds of one mailbox between two steps. The current mailbox, and those
that somebody is about to push into, exist, and their owners have not left
the loop. -/
structure MboxOk (s : DelaySystem ι) (m : Nat) : Prop where
  fresh : s.next ≤ m → s.boxes m = none
  thread : Alive s m → ThreadOk (s.threads m)
  active : s.mbox = some m →
    Alive s m ∧ ((s.threads m).phase = .waiting ∨ (s.threads m).phase = .idle)
  held : ∀ i p, s.inserters i = some (m, p) → Alive s m ∧ (s.threads m).phase ≠ .exiting
  leaving : ∀ box, s.boxes m = some box → (s.threads m).phase = .exiting → box = []

def MboxesOk (s : DelaySystem ι) : Prop :=
  ∀ m, MboxOk s m

theorem newDelaySystem_ok : MboxesOk (newDelaySystem : DelaySystem ι) := by
  intro m
  refine ⟨fun _ => rfl, ?_, ?_, ?_, ?_⟩
  · rintro ⟨box, hbox⟩
    cases hbox
  · intro hm
    cases hm
  · intro i p hi
    cases hi
  · intro box hbox
    cases hbox

/-- A step that has nothing to do with mailbox `a`. -/
structure Untouched (s s' : DelaySystem ι) (a : Nat) : Prop where
  boxes : s'.boxes a = s.boxes a
  threads : s'.threads a = s.threads a
  next : s.next ≤ s'.next
  mbox : s'.mbox = some a → s.mbox = some a
  inserters : ∀ i p, s'.inserters i = some (a, p) → s.inserters i = some (a, p)

theorem MboxOk.frame {s' : DelaySystem ι} {a : Nat} (hok : MboxOk s a) (h : Untouched s s' a) :
    MboxOk s' a := by
  have halive : Alive s' a ↔ Alive s a := by
    unfold Alive
    rw [h.boxes]
  refine ⟨?_, ?_, ?_, ?_, ?_⟩
  · intro ha
    rw [h.boxes]
    exact hok.fresh (h.next.trans ha)
  · rw [halive, h.threads]
    exact hok.thread
  · intro ha
    rw [halive, h.threads]
    exact hok.active (h.mbox ha)
  · intro i p hi
    rw [halive, h.threads]
    exact hok.held i p (h.inserters i p hi)
  · rw [h.boxes, h.threads]
    exact hok.leaving

theorem untouched_of_ne (t : DelayThread ι) (box : Option (List (DelayedPacket ι)))
    {mbox : Option Nat} (hmbox : ∀ a, mbox = some a → s.mbox = some a) {a : Nat} (ha : a ≠ m) :
    Untouched s
      { s with threads := update s.threads m t, boxes := update s.boxes m box, mbox := mbox } a :=
  ⟨update_of_ne ha _ _, update_of_ne ha _ _, Nat.le_refl _, hmbox a, fun _ _ hi => hi⟩

theorem MboxesOk.ownerStep (hok : MboxesOk s) {t : DelayThread ι}
    {box : Option (List (DelayedPacket ι))} {mbox : Option Nat}
    (hmbox : ∀ a, mbox = some a → s.mbox = some a) (hm : Alive s m)
    (ht : ∀ l, box = some l → ThreadOk t ∧ (t.phase = .exiting → l = []))
    (hactive : mbox = some m → box ≠ none ∧ (t.phase = .waiting ∨ t.phase = .idle))
    (hheld : ¬ Unheld s m → box ≠ none ∧ t.phase ≠ .exiting) : MboxesOk
      { s with threads := update s.threads m t, boxes := update s.boxes m box, mbox := mbox } := by
  intro a
  by_cases ha : a = m
  · subst ha
    have halive : box ≠ none → ∃ l, update s.boxes a box a = some l := by
      intro hne
      rw [update_self]
      exact Option.ne_none_iff_exists'.mp hne
    refine ⟨?_, ?_, ?_, ?_, ?_⟩
    · intro hnext
      rcases hm with ⟨l, hl⟩
      rw [(hok a).fresh hnext] at hl
      cases hl
    · rintro ⟨l, hl⟩
      simp only [update_self] at hl ⊢
      exact (ht l hl).1
    · intro hcurrent
      simp only [update_self]
      exact ⟨halive (hactive hcurrent).1, (hactive hcurrent).2⟩
    · intro i p hi
      have hstep := hheld fun hno => hno i p hi
      simp only [update_self]
      exact ⟨halive hstep.1, hstep.2⟩
    · intro l hl hexit
      simp only [update_self] at hl hexit
      exact (ht l hl).2 hexit
  · exact (hok a).frame (untouched_of_ne t box hmbox ha)

theorem threadMove_ok (hok : MboxesOk s) (hbox : s.boxes m = some box)
    (hclean : Leaves s m box → box = [] ∧ Unheld s m) (hmove : ThreadMove s m box r) :
    MboxesOk r.1 ∧ r.2.dangling = false ∧ r.2.lost = [] := by
  have hm : Alive s m := ⟨box, hbox⟩
  have hsame : s.boxes = update s.boxes m (some box) := by
    rw [← hbox, update_eq_self]
  -- a thread that stays in its loop
  have hstay : ∀ (t : DelayThread ι) (l : List (DelayedPacket ι)) (mbox : Option Nat),
      ThreadOk t → t.phase ≠ .exiting → (∀ a, mbox = some a → s.mbox = some a) →
      (mbox = some m → t.phase = .waiting ∨ t.phase = .idle) →
      MboxesOk
        { s with
            threads := update s.threads m t
            boxes := update s.boxes m (some l)
            mbox := mbox } := by
    intro t l mbox ht hphase hmbox hactive
    refine hok.ownerStep hmbox hm ?_ ?_ ?_
    · exact fun _ _ => ⟨ht, fun hexit => absurd hexit hphase⟩
    · exact fun h => ⟨Option.some_ne_none l, hactive h⟩
    · exact fun _ => ⟨Option.some_ne_none l, hphase⟩
  cases hmove with
  | take t p rest hphase ht hwaiting hlength =>
    refine ⟨hstay t rest s.mbox ht ?_ (fun _ h => h) fun _ => Or.inl hwaiting, rfl, rfl⟩
    rw [hwaiting]
    decide
  | send t box hphase ht hwaiting hlength =>
    have hstep := hstay t box s.mbox ht (by rw [hwaiting]; decide) (fun _ h => h)
      fun _ => Or.inl hwaiting
    rw [← hsame] at hstep
    exact ⟨hstep, rfl, rfl⟩
  | rest t hphase ht hidle =>
    have hstep := hstay t [] s.mbox ht (by rw [hidle]; decide) (fun _ h => h)
      fun _ => Or.inr hidle
    rw [← hsame] at hstep
    exact ⟨hstep, rfl, rfl⟩
  | retire t box hphase hmbox ht hsleeping =>
    have hstep := hstay t box none ht (by rw [hsleeping]; decide)
      (fun _ h => absurd h.symm (Option.some_ne_none _))
      fun h => absurd h.symm (Option.some_ne_none _)
    rw [← hsame] at hstep
    exact ⟨hstep, rfl, rfl⟩
  | leave t box hleaves hmbox ht hexiting =>
    rcases hclean hleaves with ⟨hempty, hunheld⟩
    have hstep := hok.ownerStep (fun _ h => h) hm
      (fun l hl => ⟨ht, fun _ => (Option.some.inj hl) ▸ hempty⟩) (fun h => absurd h hmbox)
      fun h => absurd hunheld h
    rw [← hsame] at hstep
    exact ⟨hstep, rfl, rfl⟩
  | delete t box hphase =>
    refine ⟨hok.ownerStep (fun _ h => h) hm ?_ ?_ ?_, rfl,
      (hok m).leaving box hbox hphase⟩
    · exact fun l hl => absurd hl.symm (Option.some_ne_none l)
    · intro hcurrent
      rcases ((hok m).active hcurrent).2 with h | h <;> rw [hphase] at h <;> cases h
    · intro hheld
      refine absurd (fun i p hi => ?_) hheld
      exact ((hok m).held i p hi).2 hphase

/-- The mailbox that an inserting thread finds exists, and its owner is in the
loop. -/
theorem getMbox_ok (hok : MboxesOk s) :
    MboxesOk (getMbox s).1 ∧ (getMbox s).1.mbox = some (getMbox s).2 := by
  unfold getMbox
  cases hmbox : s.mbox with
  | some m => exact ⟨hok, hmbox⟩
  | none =>
    refine ⟨fun a => ?_, rfl⟩
    by_cases ha : a = s.next
    · subst ha
      -- the new mailbox, with the thread that starts
      have hnone : s.boxes s.next = none := (hok s.next).fresh (Nat.le_refl _)
      refine ⟨?_, ?_, ?_, ?_, ?_⟩
      · exact fun hle => absurd hle (Nat.not_succ_le_self _)
      · intro _
        simp only [update_self]
        exact ⟨DelayPhase.noConfusion, DelayPhase.noConfusion, fun _ => rfl,
          fun _ _ => (by decide : idleTimeoutUs > 0)⟩
      · intro _
        simp only [update_self, Alive]
        exact ⟨⟨[], rfl⟩, Or.inl rfl⟩
      · intro i p hi
        rcases (hok s.next).held i p hi with ⟨⟨box, hbox⟩, -⟩
        rw [hnone] at hbox
        cases hbox
      · intro box hbox _
        simp only [update_self, Option.some.injEq] at hbox
        exact hbox.symm
    · refine (hok a).frame ⟨update_of_ne ha _ _, update_of_ne ha _ _,
        Nat.le_succ _, ?_, fun _ _ hi => hi⟩
      intro h
      exact absurd (Option.some.inj h).symm ha

theorem getMbox_step_ok (hok : MboxesOk s) (i : Nat) (p : DelayedPacket ι) : MboxesOk
      { (getMbox s).1 with
          inserters := update (getMbox s).1.inserters i (some ((getMbox s).2, p)) } := by
  rcases getMbox_ok hok with ⟨hok', hmbox⟩
  intro a
  refine ⟨(hok' a).fresh, (hok' a).thread, (hok' a).active, ?_, (hok' a).leaving⟩
  intro j q hj
  by_cases hji : j = i
  · simp only [hji, update_self, Option.some.injEq, Prod.mk.injEq] at hj
    rw [hj.1] at hmbox
    rcases (hok' a).active hmbox with ⟨hlive, hphase⟩
    refine ⟨hlive, fun hexit => ?_⟩
    rcases hphase with h | h <;> rw [hexit] at h <;> cases h
  · have hj' : (getMbox s).1.inserters j = some (a, q) :=
      (update_of_ne hji _ _).symm.trans hj
    exact (hok' a).held j q hj'

theorem push_step_ok (hok : MboxesOk s) (i : Nat) (p : DelayedPacket ι)
    (hbox : s.boxes m = some box) (hphase : (s.threads m).phase ≠ .exiting) : MboxesOk { s with
          boxes := update s.boxes m (some (box ++ [p]))
          inserters := update s.inserters i none } := by
  have hinserters : ∀ a j q, update s.inserters i none j = some (a, q) →
      s.inserters j = some (a, q) := by
    intro a j q hj
    by_cases hji : j = i
    · rw [hji, update_self] at hj
      cases hj
    · rw [update_of_ne hji] at hj
      exact hj
  intro a
  by_cases ha : a = m
  · subst ha
    have halive : ∃ l, update s.boxes a (some (box ++ [p])) a = some l :=
      ⟨_, update_self _ _ _⟩
    refine ⟨?_, fun _ => (hok a).thread ⟨box, hbox⟩, ?_, ?_, ?_⟩
    · intro hnext
      rw [(hok a).fresh hnext] at hbox
      cases hbox
    · exact fun hcurrent => ⟨halive, ((hok a).active hcurrent).2⟩
    · exact fun j q hj => ⟨halive, ((hok a).held j q (hinserters a j q hj)).2⟩
    · exact fun l _ hexit => absurd hexit hphase
  · exact (hok a).frame ⟨update_of_ne ha _ _, rfl, Nat.le_refl _, fun h => h, hinserters a⟩

theorem delaySystemStep_thread (hok : MboxesOk s) (hbox : s.boxes m = some box)
    (now later : Timespec) : ThreadMove s m box (delaySystemStep s (.thread m now later)) := by
  simp only [delaySystemStep, hbox]
  exact threadStep_move box now later ((hok m).thread ⟨box, hbox⟩) fun h =>
    ((hok m).active h).2

theorem delaySystemStep_ok (hok : MboxesOk s) (hclean : NoStraggler s a) :
    MboxesOk (delaySystemStep s a).1 ∧ KeepsPackets s a := by
  unfold KeepsPackets
  cases a with
  | getMbox i p =>
    cases hi : s.inserters i with
    | some x =>
      rw [delaySystemStep_getMbox_busy s i p hi]
      exact ⟨hok, rfl, rfl⟩
    | none =>
      rw [delaySystemStep_getMbox s i p hi]
      exact ⟨getMbox_step_ok hok i p, rfl, rfl⟩
  | push i =>
    cases hi : s.inserters i with
    | none =>
      rw [delaySystemStep_push_none s i hi]
      exact ⟨hok, rfl, rfl⟩
    | some target =>
      rcases target with ⟨m, p⟩
      rcases (hok m).held i p hi with ⟨⟨box, hbox⟩, hphase⟩
      rw [delaySystemStep_push s i m p hi, hbox]
      exact ⟨push_step_ok hok i p hbox hphase, rfl, rfl⟩
  | thread m now later =>
    cases hbox : s.boxes m with
    | none =>
      rw [delaySystemStep_thread_none s m now later hbox]
      exact ⟨hok, rfl, rfl⟩
    | some box =>
      have hmove := delaySystemStep_thread hok hbox now later
      exact threadMove_ok hok hbox (hclean box hbox) hmove

/-! ## Every packet is taken -/

/-- What a thread has to do before it looks into its mailbox again. -/
def phaseWork : DelayPhase → Nat
  | .idle => 2
  | .sleeping => 1
  | _ => 0

/-- The steps the owner of a mailbox needs to take `n` packets from it. Between
two packets it may have to send one that is late. -/
def delayWork (s : DelaySystem ι) (m : Nat) (n : Nat) : Nat :=
  2 * n + (s.threads m).queue.length + phaseWork (s.threads m).phase

def takenFrom (m : Nat) (outs : List (MboxOutput ι)) : List (DelayedPacket ι) :=
  outs.filterMap fun out => out.taken.bind fun x => if x.1 = m then some x.2 else none

def threadSteps (m : Nat) (as : List (MboxAction ι)) : Nat :=
  as.countP fun
    | .thread a _ _ => a = m
    | _ => false

theorem delaySystemStep_other (hok : MboxesOk s) (hbox : s.boxes m = some box)
    (hother : ∀ now later, a ≠ .thread m now later) :
    (∃ more, (delaySystemStep s a).1.boxes m = some (box ++ more)) ∧
      (delaySystemStep s a).1.threads m = s.threads m ∧
      takenFrom m [(delaySystemStep s a).2] = [] := by
  have hsame : ∃ more, s.boxes m = some (box ++ more) := ⟨[], by rw [hbox, append_nil]⟩
  cases a with
  | getMbox i p =>
    cases hi : s.inserters i with
    | some x =>
      rw [delaySystemStep_getMbox_busy s i p hi]
      exact ⟨hsame, rfl, rfl⟩
    | none =>
      rw [delaySystemStep_getMbox s i p hi]
      cases hmbox : s.mbox with
      | some _ =>
        simp only [getMbox, hmbox, true_and]
        exact ⟨hsame, rfl⟩
      | none =>
        -- the new mailbox is another one
        have hne : m ≠ s.next := by
          rintro rfl
          rw [(hok s.next).fresh (Nat.le_refl _)] at hbox
          cases hbox
        simp only [getMbox, hmbox, update_of_ne hne, true_and]
        exact ⟨hsame, rfl⟩
  | push i =>
    cases hi : s.inserters i with
    | none =>
      rw [delaySystemStep_push_none s i hi]
      exact ⟨hsame, rfl, rfl⟩
    | some target =>
      rcases target with ⟨b, p⟩
      rw [delaySystemStep_push s i b p hi]
      refine ⟨?_, rfl, rfl⟩
      by_cases hm : m = b
      · subst hm
        refine ⟨[p], ?_⟩
        simp [hbox]
      · simp only [update_of_ne hm]
        exact hsame
  | thread b now later =>
    have hne : m ≠ b := by
      rintro rfl
      exact hother now later rfl
    cases hb : s.boxes b with
    | none =>
      rw [delaySystemStep_thread_none s b now later hb]
      exact ⟨hsame, rfl, rfl⟩
    | some other =>
      have hmove := delaySystemStep_thread hok hb now later
      generalize delaySystemStep s (.thread b now later) = r at hmove
      cases hmove with
      | take t p rest =>
        simp only [update_of_ne hne, takenFrom, filterMap_cons,
          Option.bind_some, if_neg hne.symm, filterMap_nil, and_self, and_true]
        exact hsame
      | send | rest | retire | leave => exact ⟨hsame, update_of_ne hne _ _, rfl⟩
      | delete =>
        simp only [update_of_ne hne, true_and]
        exact ⟨hsame, rfl⟩

theorem takenFrom_cons (m : Nat) (out : MboxOutput ι) (outs : List (MboxOutput ι)) :
    takenFrom m (out :: outs) = takenFrom m [out] ++ takenFrom m outs := by
  unfold takenFrom
  rw [← filterMap_append, singleton_append]

/-- A step of the owner that leaves the loop or deletes the mailbox does not
happen while there are packets, and every other step takes the first packet
or brings it closer. -/
theorem threadMove_work (hok : MboxesOk s) {p : DelayedPacket ι}
    (hbox : s.boxes m = some (p :: box))
    (hclean : Leaves s m (p :: box) → p :: box = [] ∧ Unheld s m) (n : Nat)
    (hmove : ThreadMove s m (p :: box) r) :
    (takenFrom m [r.2] = [p] ∧ r.1.boxes m = some box ∧ delayWork r.1 m n < delayWork s m (n + 1)) ∨
      (takenFrom m [r.2] = [] ∧ r.1.boxes m = some (p :: box) ∧
        delayWork r.1 m (n + 1) < delayWork s m (n + 1)) := by
  unfold delayWork
  cases hmove with
  | take t p rest hphase ht hwaiting hlength =>
    refine Or.inl ⟨?_, update_self _ _ _, ?_⟩
    · simp [takenFrom]
    · simp only [update_self, hwaiting, hlength, phaseWork]
      omega
  | send t box hphase ht hwaiting hlength =>
    refine Or.inr ⟨rfl, hbox, ?_⟩
    simp only [update_self, hwaiting, hphase, hlength, phaseWork]
    omega
  | retire t box hphase hmbox ht hsleeping =>
    refine Or.inr ⟨rfl, hbox, ?_⟩
    have hqueue : (s.threads m).queue = [] :=
      ((hok m).thread ⟨_, hbox⟩).empty (by rw [hphase]; decide)
    have hqueue' : t.queue = [] := ht.empty (by rw [hsleeping]; decide)
    simp only [update_self, hsleeping, hphase, hqueue, hqueue', phaseWork]
    omega
  | leave t box hleaves => exact absurd (hclean hleaves).1 (cons_ne_nil _ _)
  | delete t box hphase =>
    exact absurd ((hok m).leaving _ hbox hphase) (cons_ne_nil _ _)

/-- The packets in a mailbox are taken, in order, once its owner has made enough
steps. -/
theorem takes_of_work (s : DelaySystem ι) (hok : MboxesOk s)
    (hclean : EveryStep delaySystemStep NoStraggler s as)
    (wanted more : List (DelayedPacket ι)) (hbox : s.boxes m = some (wanted ++ more))
    (hwork : delayWork s m wanted.length ≤ threadSteps m as) :
    wanted <+: takenFrom m (outputs delaySystemStep s as) := by
  induction as generalizing s wanted more with
  | nil =>
    have hnil : wanted = [] := by
      refine length_eq_zero_iff.mp ?_
      unfold delayWork threadSteps at hwork
      rw [countP_nil] at hwork
      omega
    rw [hnil]
    exact nil_prefix
  | cons a as ih =>
    cases wanted with
    | nil => exact nil_prefix
    | cons p rest =>
      rcases hclean with ⟨hclean, hcleans⟩
      have hok' := (delaySystemStep_ok hok hclean).1
      rw [outputs_cons, takenFrom_cons]
      -- only steps of the owner make the work less
      by_cases howner : ∃ now later, a = .thread m now later
      · rcases howner with ⟨now, later, rfl⟩
        have hsteps : threadSteps m (.thread m now later :: as) = threadSteps m as + 1 := by
          unfold threadSteps
          rw [countP_cons_of_pos]
          exact decide_eq_true rfl
        rw [hsteps] at hwork
        have hmove := delaySystemStep_thread hok hbox now later
        rcases threadMove_work hok hbox (hclean _ hbox) rest.length hmove with
          ⟨htaken, hbox', hless⟩ | ⟨htaken, hbox', hless⟩
        · rw [htaken]
          refine cons_prefix_cons.mpr ⟨rfl, ih _ hok' hcleans rest more hbox' ?_⟩
          rw [length_cons] at hwork
          omega
        · rw [htaken]
          refine ih _ hok' hcleans (p :: rest) more hbox' ?_
          rw [length_cons] at hwork ⊢
          omega
      · have hother : ∀ now later, a ≠ .thread m now later :=
          fun now later h => howner ⟨now, later, h⟩
        have hsteps : threadSteps m (a :: as) = threadSteps m as := by
          unfold threadSteps
          rw [countP_cons_of_neg]
          cases a with
          | getMbox i q | push i => exact Bool.false_ne_true
          | thread b now later =>
            intro hb
            exact hother now later (by rw [of_decide_eq_true hb])
        rcases delaySystemStep_other hok hbox hother with ⟨⟨pushed, hbox'⟩, hthread, htaken⟩
        rw [htaken]
        refine ih _ hok' hcleans (p :: rest) (more ++ pushed) ?_ ?_
        · rw [hbox', append_assoc]
        · unfold delayWork at hwork ⊢
          rw [hthread, ← hsteps]
          exact hwork

/-- Every packet that is pushed ends up behind those in the mailbox, and the owner
takes all of them if the run goes on for long enough. -/
def TakesPushed (as : List (MboxAction ι)) : Prop :=
  ∀ before i after m p, as = before ++ .push i :: after →
    (final delaySystemStep newDelaySystem before).inserters i = some (m, p) →
    ∃ box, (delaySystemStep (final delaySystemStep newDelaySystem before)
        (.push i)).1.boxes m = some (box ++ [p]) ∧
      (delayWork (delaySystemStep (final delaySystemStep newDelaySystem before)
          (.push i)).1 m (box ++ [p]).length ≤ threadSteps m after →
        box ++ [p] <+: takenFrom m (outputs delaySystemStep
          (delaySystemStep (final delaySystemStep newDelaySystem before) (.push i)).1 after))

theorem final_mboxesOk (hclean : EveryStep delaySystemStep NoStraggler newDelaySystem as) :
    MboxesOk (final delaySystemStep newDelaySystem as) :=
  final_invariant_of_everyStep MboxesOk NoStraggler
    (fun _ _ hok hclean => (delaySystemStep_ok hok hclean).1) newDelaySystem_ok as hclean

theorem takesPushed (hclean : EveryStep delaySystemStep NoStraggler newDelaySystem as) :
    TakesPushed as := by
  rintro before i after m p rfl hi
  rcases (everyStep_append _ _ _ _).mp hclean with ⟨hbefore, hpush, hafter⟩
  have hok := final_mboxesOk hbefore
  have hok' := (delaySystemStep_ok hok hpush).1
  rcases (hok m).held i p hi with ⟨⟨box, hbox⟩, -⟩
  have hbox' : (delaySystemStep (final delaySystemStep newDelaySystem before)
      (.push i)).1.boxes m = some (box ++ [p]) := by
    rw [delaySystemStep_push _ i m p hi, hbox]
    exact update_self _ _ _
  refine ⟨box, hbox', fun hwork => ?_⟩
  refine takes_of_work _ hok' hafter (box ++ [p]) [] ?_ hwork
  rw [append_nil]
  exact hbox'

/-! ## Stragglers lose packets -/

theorem threadMove_leaves (hleaves : Leaves s m box) (hmove : ThreadMove s m box r) :
    ∃ t, t.phase = .exiting ∧ r.1 = { s with threads := update s.threads m t } := by
  have hphase : (s.threads m).phase = .idle ∨ (s.threads m).phase = .sleeping :=
    hleaves.imp And.left And.left
  cases hmove with
  | take t p rest htake =>
    -- the last look finds a packet
    rcases hleaves with ⟨hidle, -⟩ | ⟨-, hnil⟩
    · rcases htake with h | h <;> rw [hidle] at h <;> cases h
    · cases hnil
  | send t box hwaiting => rcases hphase with h | h <;> rw [hwaiting] at h <;> cases h
  | rest t hwaiting => rcases hphase with h | h <;> rw [hwaiting] at h <;> cases h
  | retire t box hidle hmbox =>
    rcases hleaves with ⟨-, hne⟩ | ⟨hsleeping, -⟩
    · exact absurd hmbox hne
    · rw [hidle] at hsleeping
      cases hsleeping
  | leave t box hleaves hmbox ht hexiting => exact ⟨t, hexiting, rfl⟩
  | delete t box hexiting => rcases hphase with h | h <;> rw [hexiting] at h <;> cases h

theorem delaySystemStep_delete (now later : Timespec) (hbox : s.boxes m = some box)
    (hphase : (s.threads m).phase = .exiting) : delaySystemStep s (.thread m now later) = ({ s with
          threads := update s.threads m (delayStep (s.threads m) .delete).1
          boxes := update s.boxes m none }, ⟨false, none, box⟩) := by
  simp only [delaySystemStep, hbox, threadStep, hphase]

/-- If a thread leaves with a packet in its mailbox, or while somebody is about to
push, then its next step deletes a packet, or the push comes after it. -/
theorem straggler_loses (hok : MboxesOk s) (hbad : ¬ NoStraggler s a) :
    ∃ more, ¬ EveryStep delaySystemStep KeepsPackets s (a :: more) := by
  cases a with
  | getMbox i p | push i => exact absurd trivial hbad
  | thread m now later =>
    unfold NoStraggler at hbad
    push Not at hbad
    rcases hbad with ⟨box, hbox, hleaves, hheld⟩
    have hmove := delaySystemStep_thread hok hbox now later
    rcases threadMove_leaves hleaves hmove with ⟨t, hexiting, hstep⟩
    -- the next step deletes the mailbox
    have hbox' : (delaySystemStep s (.thread m now later)).1.boxes m = some box := by
      rw [hstep]
      exact hbox
    have hphase' : ((delaySystemStep s (.thread m now later)).1.threads m).phase = .exiting := by
      rw [hstep]
      simpa only [update_self] using hexiting
    have hdelete := delaySystemStep_delete now later hbox' hphase'
    by_cases hempty : box = []
    · have hheld := hheld hempty
      unfold Unheld at hheld
      push Not at hheld
      rcases hheld with ⟨i, p, hi⟩
      refine ⟨[.thread m now later, .push i], ?_⟩
      rintro ⟨-, -, ⟨hdangling, -⟩, -⟩
      have hi' : (delaySystemStep (delaySystemStep s (.thread m now later)).1
          (.thread m now later)).1.inserters i = some (m, p) := by
        rw [hdelete, hstep]
        exact hi
      rw [delaySystemStep_push _ i m p hi', hdelete] at hdangling
      simp only [update_self] at hdangling
      cases hdangling
    · refine ⟨[.thread m now later], ?_⟩
      rintro ⟨-, ⟨-, hlost⟩, -⟩
      rw [hdelete] at hlost
      exact hempty hlost

/-- Every interleaving of inserting threads and delay threads. As long as threads
leave their loop with an empty mailbox that nobody is about to push into,
every push finds its mailbox and every packet is taken by the owner. Once a
thread leaves otherwise, a packet can be lost. -/
theorem delaySystem_keepsPackets (as : List (MboxAction ι))
    (hclean : EveryStep delaySystemStep NoStraggler newDelaySystem as) :
    EveryStep delaySystemStep KeepsPackets newDelaySystem as ∧ TakesPushed as ∧
      ∀ a, ¬ NoStraggler (final delaySystemStep newDelaySystem as) a →
        ∃ more, ¬ EveryStep delaySystemStep KeepsPackets newDelaySystem
          (as ++ a :: more) := by
  refine ⟨?_, takesPushed hclean, ?_⟩
  · exact everyStep_of_invariant MboxesOk NoStraggler KeepsPackets
      (fun _ a hok hclean => delaySystemStep_ok hok hclean) newDelaySystem_ok as hclean
  · intro a hbad
    rcases straggler_loses (final_mboxesOk hclean) hbad with ⟨more, hmore⟩
    exact ⟨more, fun h => hmore ((everyStep_append _ _ _ _).mp h).2⟩

/-- A packet that its thread takes in time. -/
theorem delaySystem_keepsPackets_prompt :
    TakesPushed [.getMbox 0 (⟨7, "p", 0, ⟨1, 0⟩⟩ : DelayedPacket Nat), .push 0,
      .thread 0 ⟨5, 0⟩ ⟨5, 0⟩, .thread 0 ⟨6, 0⟩ ⟨6, 0⟩] := by
  refine (delaySystem_keepsPackets _ ?_).2.1
  refine ⟨trivial, trivial, ?_, ?_, trivial⟩
  all_goals rintro box - (⟨h, -⟩ | ⟨h, -⟩) <;> exact absurd h (by decide)

/-- A packet is delayed and sent. Almost a minute later another thread finds the
mailbox, and is interrupted for ten milliseconds. Meanwhile the owner retires the
mailbox, looks into it, and deletes it. -/
theorem straggler_pushes_into_deleted :
    ¬ EveryStep delaySystemStep KeepsPackets (newDelaySystem : DelaySystem Nat)
      [.getMbox 0 ⟨7, "p", 0, ⟨1, 0⟩⟩, .push 0, .thread 0 ⟨5, 0⟩ ⟨5, 0⟩, .thread 0 ⟨6, 0⟩ ⟨6, 0⟩,
        .getMbox 1 ⟨8, "p", 0, ⟨1, 0⟩⟩, .thread 0 ⟨66, 0⟩ ⟨66, 0⟩, .thread 0 ⟨66, 0⟩ ⟨66, 0⟩,
        .thread 0 ⟨66, 10000000⟩ ⟨66, 10000000⟩, .thread 0 ⟨66, 10000000⟩ ⟨66, 10000000⟩,
        .push 1] := by
  rintro ⟨-, -, -, -, -, -, -, -, -, ⟨hdangling, -⟩, -⟩
  exact absurd hdangling (by decide)

end Dnt
