import Dnt.Theory.Delay.Queue
import Dnt.Theory.Delay.Stamps

/-!
# Packets are Not Sent Early

The thread waits for as long as there is time until the first deadline, in whole
microseconds. No packet leaves early by more than what is lost there, as long as the
clock does not go backwards and the microseconds fit into an `int`.

The wait itself has to be a full one. `messagequeue_pop` goes back to waiting after a
signal, but only once: a second signal ends it with no message, and the thread takes
this for the end of its timeout.

A deadline is a delay after a stamp that may come from another node. It does not
depend on how long the packet was on its way.

## Main definitions

* `Timely`: The timeout of the thread fits its first deadline.
* `ClockedInput`, `clockedStep`: The thread together with the clock.
* `SteadyClock`, `FullWait`: What is asked of the clock, and of a wait that ends without
  a message.
* `NotEarly`: A packet that is sent has less than a microsecond left.

## Theorems

* `clockedStep_timely`: One step keeps the timeout right, and sends nothing early.
* `delayRun_notEarly`: With a steady clock and full waits no packet is sent a
  microsecond before its deadline or earlier.
* `stamped_deadline`: The deadline of a packet that got its stamp at another node is the
  time of this stamp, cut to microseconds, and the delay.
-/

namespace Dnt

open Mealy

open List

variable {ι : Type*} {t : DelayThread ι} {now : Timespec}

/-- The thread has set its timeout at `now`, and no deadline is too far away for it. -/
structure Timely (t : DelayThread ι) (now : Timespec) : Prop where
  near : ∀ e ∈ t.queue, e.deadline.nanoseconds < now.nanoseconds + 2147100000000
  first : ∀ f ∈ t.queue.head?,
    f.deadline.nanoseconds < now.nanoseconds + 1000 * t.timeoutUs + 1000

theorem lt_toInt32_timeDiffUs {deadline : Timespec}
    (h : deadline.nanoseconds < now.nanoseconds + 2147100000000) : deadline.nanoseconds <
      now.nanoseconds + 1000 * toInt32 (timeDiffUs deadline now) + 1000 := by
  have hdiv := Int.mul_tdiv_add_tmod (deadline.tvNsec - now.tvNsec) 1000
  have hlow := Int.lt_tmod_of_pos (deadline.tvNsec - now.tvNsec) (by decide : (0 : Int) < 1000)
  have hhigh := Int.tmod_lt_of_pos (deadline.tvNsec - now.tvNsec) (by decide : (0 : Int) < 1000)
  unfold toInt32 timeDiffUs Int.bmod
  simp only [Timespec.nanoseconds] at h ⊢
  split_ifs <;> omega

/-- However wrong a stamp is, it is not read as much later than the clock. -/
theorem timespecFromTsntstamp_near (tsnts : Nat) (hnow : now.Normalized) :
    (timespecFromTsntstamp tsnts now).nanoseconds < now.nanoseconds + 100000000 := by
  have hnonneg := hnow.nonneg
  unfold timespecFromTsntstamp Timespec.nanoseconds
  dsimp only
  split_ifs <;> dsimp only <;> omega

theorem timely_of_first (hnear : ∀ e ∈ t.queue, e.deadline.nanoseconds <
      now.nanoseconds + 2147100000000) (hfirst : ∀ f ∈ t.queue.head?,
      t.timeoutUs = toInt32 (timeDiffUs f.deadline now)) : Timely t now := by
  refine ⟨hnear, fun f hf => ?_⟩
  rw [hfirst f hf]
  exact lt_toInt32_timeDiffUs (hnear f (mem_of_head? hf))

theorem timely_queuePush (later : Timespec) {p : DelayedPacket ι} (h : Timely t now)
    (hnow : now.Normalized) (hdelay : p.delay.nanoseconds ≤ 2147000000000) :
    Timely (queuePush t p now later).1 now := by
  have hperm := perm_orderedInsert DeadlineLe (newDelayElem t.nextAddr p now) t.queue
  rw [← queueLink_eq_orderedInsert] at hperm
  refine timely_of_first (fun e he => ?_) fun f hf => ?_
  · rcases mem_cons.mp (hperm.subset he) with rfl | hold
    · refine (nanoseconds_timespecadd _ p.delay).trans_lt ?_
      have hpast := timespecFromTsntstamp_near p.timestamp hnow
      omega
    · exact h.near e hold
  · have hhead : (queueLink (newDelayElem t.nextAddr p now) t.queue).head? = some f := hf
    simp only [queuePush, firstTimeout, hhead, Option.map_some, Option.getD_some]

theorem queueSendFirst_timely {last : Timespec} (h : Timely t last) (hlater : Timely t now) :
    Timely (queueSendFirst t now).1 now ∧ ∀ x ∈ (queueSendFirst t now).2.sent,
      x.elem.deadline.nanoseconds < last.nanoseconds + 1000 * t.timeoutUs + 1000 := by
  cases hqueue : t.queue with
  | nil =>
    rw [queueSendFirst_nil now hqueue]
    exact ⟨⟨hlater.near, hlater.first⟩, forall_mem_nil _⟩
  | cons g rest =>
    rw [queueSendFirst_cons now hqueue]
    refine ⟨timely_of_first (fun e he => ?_) fun f hf => ?_, forall_mem_singleton.mpr ?_⟩
    · exact hlater.near e (hqueue ▸ mem_cons_of_mem g he)
    · have hhead : rest.head? = some f := hf
      simp only [firstTimeout, hhead, Option.map_some, Option.getD_some]
    · exact h.first g (by rw [hqueue]; rfl)

/-! ## The thread and the clock -/

/-- The clock as the thread has read it last. -/
def DelayInput.reading (last : Timespec) : DelayInput ι → Timespec
  | .pop _ now _ | .popAgain _ now _ => now
  | _ => last

/-- An input, and the time at which the thread had it: when the wait for it was over. -/
structure ClockedInput (ι : Type*) where
  input : DelayInput ι
  returned : Timespec

variable (s : DelayThread ι × Timespec) (e : ClockedInput ι)

def clockedStep : (DelayThread ι × Timespec) × DelayOutput ι :=
  (((delayStep s.1 e.input).1, e.input.reading s.2), (delayStep s.1 e.input).2)

/-- The clock does not go backwards, and no packet is delayed for more than 2147 s. -/
def SteadyClock : Prop :=
  match e.input with
  | .pop msg now _ | .popAgain msg now _ =>
    now.Normalized ∧ s.2.nanoseconds ≤ e.returned.nanoseconds ∧
      e.returned.nanoseconds ≤ now.nanoseconds ∧
      ∀ p, msg = some (.packet p) → p.delay.nanoseconds ≤ 2147000000000
  | _ => True

/-- If `messagequeue_pop` comes back with no message, its timeout has passed. It was not
ended by a second signal, or by another error of `sem_timedwait`. -/
def FullWait : Prop :=
  match e.input with
  | .pop none _ _ =>
    0 < s.1.timeoutUs → s.2.nanoseconds + 1000 * s.1.timeoutUs ≤ e.returned.nanoseconds
  | _ => True

/-- But for a flush, a packet that is sent has less than a microsecond left until its
deadline. -/
def NotEarly : Prop :=
  ¬ TakesFlush s.1 e.input → ∀ x ∈ (clockedStep s e).2.sent,
    x.elem.deadline.nanoseconds < e.returned.nanoseconds + 1000

theorem Timely.mono {last : Timespec} (h : Timely t last)
    (hle : last.nanoseconds ≤ now.nanoseconds) : Timely t now := by
  refine ⟨fun e he => ?_, fun f hf => ?_⟩
  · have := h.near e he
    omega
  · have := h.first f hf
    omega

/-- The wait is over, or there was none: whichever it was, the timeout has passed. -/
theorem timeout_passed {last returned : Timespec} {later : Timespec}
    {msg : Option (MboxMessage ι)}
    (hmsg : (if t.timeoutUs > 0 then msg else none) = none)
    (hle : last.nanoseconds ≤ returned.nanoseconds)
    (hwait : FullWait (t, last) ⟨.pop msg now later, returned⟩) :
    last.nanoseconds + 1000 * t.timeoutUs ≤ returned.nanoseconds := by
  by_cases hlong : t.timeoutUs > 0
  · rw [if_pos hlong] at hmsg
    subst hmsg
    exact hwait hlong
  · omega

theorem clockedStep_timely (h : Timely s.1 s.2) (hclock : SteadyClock s e ∧ FullWait s e) :
    Timely (clockedStep s e).1.1 (clockedStep s e).1.2 ∧ NotEarly s e := by
  obtain ⟨t, last⟩ := s
  obtain ⟨input, returned⟩ := e
  obtain ⟨hclock, hwait⟩ := hclock
  have hlater : Timely t (input.reading last) := by
    cases input with
    | pop | popAgain =>
      obtain ⟨-, hle, hnow, -⟩ := hclock
      exact h.mono (hle.trans hnow)
    | check | delete => exact h
  simp only [NotEarly, clockedStep]
  fun_cases delayStep t input with
  | case1 msg _ _ hphase hmsg =>
    refine ⟨⟨forall_mem_nil _, by simp⟩, fun hno => absurd ?_ hno⟩
    have hlong : t.timeoutUs > 0 := by_contra fun hshort => by simp [hshort] at hmsg
    exact ⟨hphase, hlong, by simpa [hlong] using hmsg⟩
  | case2 msg _ later _ p hmsg =>
    obtain ⟨hnow, -, -, hdelay⟩ := hclock
    have hpacket : msg = some (.packet p) := (ite_eq_iff.mp hmsg).elim And.right (by simp)
    exact ⟨timely_queuePush later hlater hnow (hdelay p hpacket), fun _ => forall_mem_nil _⟩
  | case3 msg _ later _ hmsg =>
    obtain ⟨htimely, hsent⟩ := queueSendFirst_timely h hlater
    have hpassed : last.nanoseconds + 1000 * t.timeoutUs ≤ returned.nanoseconds :=
      timeout_passed hmsg hclock.2.1 hwait
    refine ⟨htimely, fun _ x hx => (hsent x hx).trans_le ?_⟩
    exact Int.add_le_add_right hpassed 1000
  | case6 _ later _ p =>
    obtain ⟨hnow, -, -, hdelay⟩ := hclock
    exact ⟨timely_queuePush later ⟨hlater.near, hlater.first⟩ hnow (hdelay p rfl),
      fun _ => forall_mem_nil _⟩
  | _ => exact ⟨⟨hlater.near, hlater.first⟩, fun _ => forall_mem_nil _⟩

/-- No packet leaves the thread a microsecond early or more, whatever comes in while it
waits, if no wait is cut short. -/
theorem delayRun_notEarly (start : Timespec) (inputs : List (ClockedInput ι))
    (hclock : EveryStep clockedStep (fun s e => SteadyClock s e ∧ FullWait s e)
      (newDelayThread, start) inputs) :
    EveryStep clockedStep NotEarly (newDelayThread, start) inputs :=
  everyStep_of_invariant (fun s => Timely s.1 s.2) _ _ clockedStep_timely
    ⟨forall_mem_nil _, by simp [newDelayThread]⟩ inputs hclock

/-- The second packet overtakes the first one. -/
theorem delayRun_notEarly_overtaken :
    let inputs : List (ClockedInput Nat) :=
      [⟨.pop (some (.packet ⟨1, "a", 0, ⟨1, 0⟩⟩)) ⟨100, 0⟩ ⟨100, 0⟩, ⟨100, 0⟩⟩,
        ⟨.pop (some (.packet ⟨2, "a", 0, ⟨0, 5000⟩⟩)) ⟨100, 9⟩ ⟨100, 9⟩, ⟨100, 8⟩⟩,
        ⟨.pop none ⟨100, 5000⟩ ⟨100, 5000⟩, ⟨100, 4500⟩⟩]
    EveryStep clockedStep NotEarly (newDelayThread, ⟨100, 0⟩) inputs := by
  refine delayRun_notEarly _ _ ?_
  simp only [EveryStep, SteadyClock, FullWait, Option.some.injEq, MboxMessage.packet.injEq,
    forall_eq', reduceCtorEq, false_imp_iff, implies_true]
  decide

/-! ## Stamps from another node -/

theorem ntohl_htonl {n : Nat} (h : n < 2 ^ 32) : ntohl (htonl n) = n := by
  have hoctets : ((n / 2 ^ 24 % 256 * 256 + n / 2 ^ 16 % 256) * 256 + n / 256 % 256) * 256 +
      n % 256 = n := by omega
  simpa [ntohl, htonl] using hoctets

theorem hdrData_writetstamp {field : HeaderField} (hfield : field.bitcount = 32) (p : Packet)
    (timestamp : NetworkWord) (i : Fin 4) :
    hdrData field (actionWritetstampExecute field p timestamp) i = timestamp i := by
  rw [actionWritetstampExecute, hfield]
  match i with
  | 0 | 1 | 2 | 3 => simp [finRange_succ, hdrData, setDst, dstAddr, headerStart]

/-- A packet gets a stamp at `t`, and is put into the queue of another node. There its
deadline is `delay` after `t`, cut to microseconds, whenever it comes within two seconds
and wherever the field is then. -/
theorem stamped_deadline {ι : Type*} (field field' : HeaderField) (p q : Packet)
    (old : NetworkWord) (addr : Nat) (pi : ι) (pipe : String) (t now delay : Timespec)
    (hfield : field.bitcount = 32 ∧ field'.bitcount = 32) (ht : t.Normalized)
    (hnow : now.Normalized) (hdelay : delay.Normalized) (hle : t.nanoseconds ≤ now.nanoseconds)
    (hlt : now.nanoseconds < t.truncUs.nanoseconds + 2 * 1000000000)
    (hcarried : ∀ i < 4, hdrData field' q i =
      hdrData field (actionWritetstampExecute field p (htonl (timespecToTsntstamp t))) i) :
    let tsnts := ntohl (actionReadtstampExecute field' q old)
    let deadline := (newDelayElem addr ⟨pi, pipe, tsnts, delay⟩ now).deadline
    deadline.Normalized ∧ deadline.nanoseconds = t.truncUs.nanoseconds + delay.nanoseconds := by
  intro tsnts deadline
  have hword : actionReadtstampExecute field' q old = htonl (timespecToTsntstamp t) := by
    funext i
    rw [actionReadtstampExecute, if_pos (by omega), hcarried i i.isLt,
      hdrData_writetstamp hfield.1]
  have hstamp : tsnts = timespecToTsntstamp t := by
    refine (congrArg ntohl hword).trans (ntohl_htonl ?_)
    unfold timespecToTsntstamp
    omega
  have hdeadline : deadline = timespecadd t.truncUs delay := by
    show timespecadd (timespecFromTsntstamp tsnts now) delay = _
    rw [hstamp, timespecFromTsntstamp_made ht hnow hle hlt]
  have hnonneg := ht.nonneg
  have hshort := ht.lt
  have hsecond := hdelay.lt
  rw [hdeadline]
  refine ⟨?_, nanoseconds_timespecadd _ delay⟩
  refine (normalized_timespecadd_iff ?_ hdelay).mpr ?_
  · show 0 ≤ t.tvNsec / 1000 * 1000
    omega
  · show t.tvNsec / 1000 * 1000 + delay.tvNsec < 2 * 1000000000
    omega

/-- A stamp of a quarter second, read in the next second. -/
theorem stamped_deadline_nextSecond :
    let p := actionWritetstampExecute stampField (stampedPacket 0 0 0 0)
      (htonl (timespecToTsntstamp ⟨100, 250000000⟩))
    (newDelayElem 0 ⟨(), "a", ntohl (actionReadtstampExecute stampField p (htonl 0)), ⟨1, 0⟩⟩
      ⟨101, 0⟩).deadline.Normalized :=
  (stamped_deadline stampField stampField (stampedPacket 0 0 0 0) _ (htonl 0) 0 () "a"
    ⟨100, 250000000⟩ ⟨101, 0⟩ ⟨1, 0⟩ ⟨rfl, rfl⟩ (by decide) (by decide) (by decide) (by decide)
    (by decide) fun _ _ => rfl).1

end Dnt
