import Mathlib.Data.Finset.Lattice.Fold
import Dnt.Core.SeqRecov

/-!
# Vector Recovery Refines a Filter

What vector recovery is for, said without a bit array and without a wrapping
counter. The reference filter keeps the highest number seen and the set of all
numbers passed since the last reset, both unwrapped into the integers.

`Agrees` is the simulation relation. The sixteen bits are a residue of the highest
number, and the cells are the set as a window shows it from there. Older numbers
fall outside the acceptance range.

The counters of the code are `int`s. They show the numbers of the filter's answers as
long as these fit, which are more than two thousand million packets.

## Main definitions

* `Reference.packet`, `Reference.step`: The filter, for a packet and for an event.
* `Reference.tally`: What the counters should show after a list of answers.
* `Agrees`, `Simulates`: The simulation relation, without the counters and with them.

## Theorems

* `recoverCase_agrees`: Each branch of `recover` gives the answer of the filter.
* `recoveryStep_simulates`: One event keeps the simulation relation.
* `vectorRecovery_refines_reference`: A whole run takes the filter's decisions, and
  every counter shows its number as long as this fits an `int`.
* `vectorRecovery_discarded_wraps`: After as many repetitions as an `int` has no room
  for, the counter of discarded packets is negative.
-/

namespace Dnt

open Mealy

open SequenceRecovery

namespace Reference

/-- The highest number and the numbers passed since the last reset. -/
structure Epoch where
  top : Int
  passed : Finset Int

/-- No epoch before the first packet after a start or a reset. -/
abbrev Filter := Option Epoch

/-- A decision, with the reason a counter asks for. -/
inductive Verdict where
  | passed (outOfOrder : Bool)
  | dropped (rogue : Bool)
  deriving DecidableEq, Repr

def Verdict.passes : Verdict → Bool
  | .passed _ => true
  | .dropped _ => false

/-- Read a sequence number as the unwrapped number nearest to `top`. -/
def unwrap (top : Int) (seq : Nat) : Int :=
  Window.unwrap 32768 top seq

theorem unwrap_iff (top : Int) (seq : Nat) (u : Int) :
    u = unwrap top seq ↔ u ≡ seq [ZMOD 65536] ∧ top - 32768 ≤ u ∧ u ≤ top + 32767 := by
  constructor
  · rintro rfl
    obtain ⟨hmod, hlow, hhigh⟩ := Window.unwrap_spec 32768 top seq (by decide)
    exact ⟨hmod, hlow, by rw [unwrap]; omega⟩
  · rintro ⟨hmod, hlow, hhigh⟩
    exact Window.unwrap_unique (by decide) hmod hlow (by omega)

def packet (H : Int) (seq : Nat) : Filter → Filter × Verdict
  | none => (some ⟨seq, {(seq : Int)}⟩, .passed false)
  | some e =>
    let u := unwrap e.top seq
    if -H < u - e.top ∧ u - e.top ≤ H then
      if u ∈ e.passed then (some e, .dropped false)
      else (some ⟨max e.top u, insert u e.passed⟩, .passed (decide (u - e.top ≠ 1)))
    else (some e, .dropped true)

/-- One event of the filter. Only the low sixteen bits of the sequence word
are a number. -/
def step (H : Int) (f : Filter) : RecoveryEvent → Filter × Option Verdict
  | .packet seq => ((packet H (seq % 65536) f).1, some (packet H (seq % 65536) f).2)
  | .reset => (none, none)

/-- A decision is counted, where `succ` is the successor of the counters. -/
def Verdict.count (succ : Int → Int) (c : RecoveryCounts) : Verdict → RecoveryCounts
  | .passed false => { c with passed := succ c.passed }
  | .passed true => { c with passed := succ c.passed, outOfOrder := succ c.outOfOrder }
  | .dropped false => { c with discarded := succ c.discarded }
  | .dropped true => { c with discarded := succ c.discarded, rogue := succ c.rogue }

/-- The counters after a list of decisions: how many packets were passed, how
many dropped, how many of those for being outside the window, and how many
passed out of order. -/
def tally (vs : List (Option Verdict)) : RecoveryCounts :=
  { passed := vs.countP fun v => v = some (.passed false) ∨ v = some (.passed true)
    discarded := vs.countP fun v => v = some (.dropped false) ∨ v = some (.dropped true)
    rogue := vs.count (some (.dropped true))
    outOfOrder := vs.count (some (.passed true)) }

theorem tally_append_some (vs : List (Option Verdict)) (v : Verdict) :
    tally (vs ++ [some v]) = v.count (· + 1) (tally vs) := by
  rcases v with (_ | _) | (_ | _) <;>
    simp [tally, Verdict.count, List.countP_append, List.count_append]

theorem tally_append_none (vs : List (Option Verdict)) : tally (vs ++ [none]) = tally vs := by
  simp [tally, List.countP_append, List.count_append]

/-- The numbers as four `int`s hold them. -/
def asInts (c : RecoveryCounts) : RecoveryCounts :=
  ⟨Int.bmod c.passed (2 ^ 32), Int.bmod c.discarded (2 ^ 32), Int.bmod c.rogue (2 ^ 32),
    Int.bmod c.outOfOrder (2 ^ 32)⟩

theorem count_asInts (v : Verdict) (c : RecoveryCounts) :
    v.count intSucc (asInts c) = asInts (v.count (· + 1) c) := by
  rcases v with (_ | _) | (_ | _) <;> simp only [Verdict.count, asInts, intSucc_bmod]

/-- The counters against the numbers they are for: each one is right as long as its
number fits an `int`. -/
structure Shown (number counter : RecoveryCounts) : Prop where
  passed : number.passed < 2147483648 → counter.passed = number.passed
  discarded : number.discarded < 2147483648 → counter.discarded = number.discarded
  rogue : number.rogue < 2147483648 → counter.rogue = number.rogue
  outOfOrder : number.outOfOrder < 2147483648 → counter.outOfOrder = number.outOfOrder

theorem shown_asInts (vs : List (Option Verdict)) : Shown (tally vs) (asInts (tally vs)) := by
  have hfits : ∀ n : Nat, (n : Int) < 2147483648 → Int.bmod n (2 ^ 32) = n :=
    fun n hn => Int.bmod_eq_of_le (by omega) (by omega)
  constructor <;> simp only [tally, asInts] <;> exact hfits _

end Reference

open Reference

/-- The number space stands for the filter's state. -/
def Agrees (H : Nat) (sp : SeqSpace) : Filter → Prop
  | none => sp.takeAny = true ∧ sp.history = List.replicate H false
  | some e =>
    sp.takeAny = false ∧ sp.history.length = H ∧ (sp.recvSeq : Int) = e.top % 65536 ∧
      Window.Shows sp.history e.top e.passed ∧ ∀ x ∈ e.passed, x ≤ e.top

variable {log : List (Option Verdict)} {H seq : Nat} {e : Epoch}
  {f : Filter} {r : SequenceRecovery}

theorem calcDelta_eq_unwrap_sub (top : Int) (seq : Nat) :
    calcDelta seq (top % 65536) = unwrap top seq - top := by
  simp only [calcDelta, frerRcvySeqSpace, unwrap, Window.unwrap]
  split_ifs <;> omega

theorem packet_outside {H : Int}
    (hout : H < unwrap e.top seq - e.top ∨ unwrap e.top seq - e.top ≤ -H) :
    packet H seq (some e) = (some e, .dropped true) := by
  simp only [packet]
  rw [if_neg (by omega)]

theorem packet_seen {H : Int}
    (hin : -H < unwrap e.top seq - e.top ∧ unwrap e.top seq - e.top ≤ H)
    (hmem : unwrap e.top seq ∈ e.passed) :
    packet H seq (some e) = (some e, .dropped false) := by
  simp only [packet]
  rw [if_pos hin, if_pos hmem]

theorem packet_new {H : Int}
    (hin : -H < unwrap e.top seq - e.top ∧ unwrap e.top seq - e.top ≤ H)
    (hmem : unwrap e.top seq ∉ e.passed) : packet H seq (some e) =
      (some ⟨max e.top (unwrap e.top seq), insert (unwrap e.top seq) e.passed⟩,
        .passed (decide (unwrap e.top seq - e.top ≠ 1))) := by
  simp only [packet]
  rw [if_pos hin, if_neg hmem]

/-- One packet: the five branches of `recover` against the four answers of the
filter. -/
theorem recoverCase_agrees (hH : 1 ≤ H) (hseq : seq < 65536) (hlen : r.historyLength = H)
    {acc : Bool} {sp : SeqSpace} {c : RecoveryCounts} (hf : Agrees H (r.space false) f)
    (hcase : RecoverCase r seq false acc sp c) :
    Agrees H sp (packet H seq f).1 ∧ acc = (packet H seq f).2.passes ∧
      c = (packet H seq f).2.count intSucc r.counts := by
  rcases f with _ | e
  · -- no packet since the start or the last reset: the first one is passed
    obtain ⟨htake, hhist⟩ := hf
    cases hcase with
    | restart _ =>
      refine ⟨⟨rfl, ?_, ?_, ?_, ?_⟩, rfl, rfl⟩
      · simp [hhist]
      · show (seq : Int) = (seq : Int) % 65536
        omega
      · have hshow := Window.shows_mark _ (seq : Int) ∅ 0
          (by rw [List.length_replicate]; omega) (Window.shows_fresh H seq)
        simpa [hhist] using hshow
      · intro x hx
        exact le_of_eq (Finset.mem_singleton.mp hx)
    | rogue h | late h | seen h | ahead h => simp [htake] at h
  · obtain ⟨htake, hlength, hrecv, hshow, hle⟩ := hf
    have hdelta : calcDelta seq (r.space false).recvSeq = unwrap e.top seq - e.top := by
      rw [hrecv, calcDelta_eq_unwrap_sub]
    -- the number the packet carries is the low part of the unwrapped one
    have hmod : (seq : Int) = unwrap e.top seq % 65536 := by
      have hu := (unwrap_iff e.top seq _).mp rfl
      have := hu.1.eq
      omega
    -- a number at or below the top is in the set exactly when its cell is marked
    have hcell : -(H : Int) < unwrap e.top seq - e.top →
        unwrap e.top seq - e.top ≤ 0 →
        ((r.space false).history.getD (-(unwrap e.top seq - e.top)).toNat false = true ↔
          unwrap e.top seq ∈ e.passed) := by
      intro hlow hhigh
      have hi := hshow (-(unwrap e.top seq - e.top)).toNat (by omega)
      rwa [show e.top - ((-(unwrap e.top seq - e.top)).toNat : Int) =
        unwrap e.top seq by omega] at hi
    cases hcase with
    | restart h => simp [htake] at h
    | rogue _ hout =>
      rw [packet_outside (by omega)]
      exact ⟨⟨htake, hlength, hrecv, hshow, hle⟩, rfl, rfl⟩
    | seen _ hlow hhigh hold =>
      rw [hdelta] at hold
      rw [packet_seen (by omega) ((hcell (by omega) (by omega)).mp hold)]
      exact ⟨⟨htake, hlength, hrecv, hshow, hle⟩, rfl, rfl⟩
    | late _ hlow hhigh hnew =>
      -- the top stays, and one more cell is marked
      rw [hdelta] at hlow hhigh hnew ⊢
      have hnot : unwrap e.top seq ∉ e.passed := fun hmem => by
        rw [(hcell (by omega) hhigh).mpr hmem] at hnew
        exact absurd hnew (by decide)
      rw [packet_new (by omega) hnot, max_eq_left (by omega), decide_eq_true (by omega)]
      refine ⟨⟨htake, by rw [List.length_set, hlength], hrecv, ?_, ?_⟩, rfl, rfl⟩
      · have hmark := Window.shows_mark _ e.top e.passed
          (-(unwrap e.top seq - e.top)).toNat (by omega) hshow
        rw [show e.top - ((-(unwrap e.top seq - e.top)).toNat : Int) =
          unwrap e.top seq by omega] at hmark
        rwa [Finset.coe_insert]
      · intro x hx
        rcases Finset.mem_insert.mp hx with rfl | hx
        · show unwrap e.top seq ≤ e.top
          omega
        · exact hle x hx
    | ahead _ hlow hhigh =>
      -- a new top, which is above everything passed
      rw [hdelta] at hlow hhigh ⊢
      have hnot : unwrap e.top seq ∉ e.passed := fun hmem => by
        have := hle _ hmem
        omega
      rw [packet_new (by omega) hnot, max_eq_right (by omega)]
      have hne : (r.space false).history ≠ [] := List.length_pos_iff.mp (by omega)
      refine ⟨⟨htake, ?_, hmod, ?_, ?_⟩, rfl, ?_⟩
      · rw [Window.length_advance _ _ hne, hlength]
      · have hadv := Window.shows_advance _ e.top e.passed
          (unwrap e.top seq - e.top).toNat (by omega) hne hle hshow
        rw [show e.top + ((unwrap e.top seq - e.top).toNat : Int) =
          unwrap e.top seq by omega] at hadv
        rwa [Finset.coe_insert]
      · intro x hx
        rcases Finset.mem_insert.mp hx with rfl | hx
        · exact le_refl _
        · have := hle x hx
          show x ≤ unwrap e.top seq
          omega
      · by_cases hone : unwrap e.top seq - e.top = 1
        all_goals simp [hone, Verdict.count, counts]

/-- The simulation relation with the counters: the record stands for the
filter's state, and its counters for the answers given so far. -/
structure Simulates (H : Nat) (r : SequenceRecovery)
    (f : Filter × List (Option Verdict)) : Prop where
  algorithm : r.algorithm = .rcvyVector
  historyLength : r.historyLength = H
  space : Agrees H r.regular f.1
  counts : r.counts = asInts (tally f.2)

theorem newSeqRec_simulates (hH : H ≤ 32767) (useReset useInit : Bool) (resetMsec : Nat) :
    Simulates H (newSeqRec .rcvyVector useReset useInit H resetMsec) (none, []) :=
  { algorithm := rfl
    historyLength := newSeqRec_historyLength _ _ _ _ (by omega)
    space := ⟨rfl, rfl⟩
    counts := rfl }

theorem packet_simulates (hH : 1 ≤ H) (seq : Nat) (h : Simulates H r (f, log)) :
    Simulates H (seqRecovery r seq).2 ((packet H (seq % 65536) f).1,
          log ++ [some (packet H (seq % 65536) f).2]) ∧
      (seqRecovery r seq).1 = (packet H (seq % 65536) f).2.passes := by
  have hrec : seqRecovery r seq = recover r (seq % 65536) false := by
    rw [seqRecovery, h.algorithm, vectorSeqRecovery]
  obtain ⟨hspace, hacc, hcounts⟩ := recoverCase_agrees hH
    (Nat.mod_lt _ (by decide)) h.historyLength h.space (recover_case r (seq % 65536) false)
  have hframe := (recover_frame r (seq % 65536) false).1
  rw [hrec]
  refine ⟨⟨?_, ?_, hspace, ?_⟩, hacc⟩
  · rw [hframe.algorithm, h.algorithm]
  · rw [hframe.historyLength, h.historyLength]
  · rw [hcounts, tally_append_some, h.counts, count_asInts]

theorem reset_simulates (h : Simulates H r (f, log)) :
    Simulates H (seqRecoveryReset r) (none, log ++ [none]) := by
  have hrec : seqRecoveryReset r = vectorSeqRecoveryReset { r with
      seqRecoveryResets := intSucc r.seqRecoveryResets
      regular := { r.regular with takeAny := true } } := by
    simp only [seqRecoveryReset, h.algorithm]
  rw [hrec]
  refine ⟨h.algorithm, h.historyLength, ⟨rfl, ?_⟩, ?_⟩
  · show List.replicate r.historyLength.toNat false = List.replicate H false
    rw [h.historyLength, Int.toNat_natCast]
  · rw [tally_append_none]
    exact h.counts

theorem recoveryStep_simulates (hH : 1 ≤ H) {f : Filter × List (Option Verdict)}
    (ev : RecoveryEvent) (h : Simulates H r f) :
    Simulates H (recoveryStep r ev).1 (logged (step H) f ev).1 ∧ (recoveryStep r ev).2 =
        (logged (step H) f ev).2.map Verdict.passes := by
  cases ev with
  | packet seq =>
    obtain ⟨hsim, hacc⟩ := packet_simulates hH seq h
    exact ⟨hsim, congrArg some hacc⟩
  | reset => exact ⟨reset_simulates h, rfl⟩

theorem final_simulates (hlow : 1 ≤ H) (hhigh : H ≤ 32767) (useReset useInit : Bool)
    (resetMsec : Nat) (evs : List RecoveryEvent) :
    outputs recoveryStep (newSeqRec .rcvyVector useReset useInit H resetMsec) evs =
        (outputs (Reference.step H) none evs).map (Option.map Reference.Verdict.passes) ∧
      (final recoveryStep (newSeqRec .rcvyVector useReset useInit H resetMsec) evs).counts =
        asInts (tally (outputs (Reference.step H) none evs)) := by
  obtain ⟨hfinal, houts⟩ := run_simulation (Simulates H)
    (fun o v => o = Option.map Reference.Verdict.passes v)
    (fun r f ev h => recoveryStep_simulates hlow ev h)
    (newSeqRec_simulates hhigh useReset useInit resetMsec) evs
  -- the log of the filter is what the counters count
  rw [final_logged] at hfinal
  rw [outputs_logged] at houts
  refine ⟨?_, hfinal.counts⟩
  have heq := List.forall₂_map_right_iff.mpr houts
  exact List.forall₂_eq_eq_eq.le _ _ heq

/-- Over every run of packets and resets a fresh vector recovery takes the
decisions of the reference filter, and its counters show how many packets
the filter passed, dropped, dropped outside the window, and passed out of
order, each as long as this number fits an `int`. -/
theorem vectorRecovery_refines_reference (H : Nat) (hlow : 1 ≤ H) (hhigh : H ≤ 32767)
    (useReset useInit : Bool) (resetMsec : Nat) (evs : List RecoveryEvent) :
    outputs recoveryStep (newSeqRec .rcvyVector useReset useInit H resetMsec) evs =
        (outputs (Reference.step H) none evs).map (Option.map Reference.Verdict.passes) ∧
      Shown (tally (outputs (Reference.step H) none evs))
        (final recoveryStep (newSeqRec .rcvyVector useReset useInit H resetMsec) evs).counts := by
  obtain ⟨houts, hcounts⟩ := final_simulates hlow hhigh useReset useInit resetMsec evs
  rw [hcounts]
  exact ⟨houts, shown_asInts _⟩

/-- A run that wraps around, with a late packet, a repeated one, a rogue one,
and a reset. -/
theorem vectorRecovery_refines_reference_wrap :
    (1 ≤ 3 ∧ 3 ≤ 32767) ∧
      outputs recoveryStep (newSeqRec .rcvyVector false false 3 2000)
        [.packet 65534, .packet 0, .packet 65535, .packet 65535, .packet 9, .reset, .packet 9] =
        [some true, some true, some true, some false, some false, none, some true] :=
  ⟨by decide,
    (vectorRecovery_refines_reference 3 (by decide) (by decide) false false 2000
      [.packet 65534, .packet 0, .packet 65535, .packet 65535, .packet 9, .reset,
        .packet 9]).1.trans (by decide)⟩

/-- A packet that comes again and again is passed once. -/
theorem outputs_repeated (n : Nat) :
    outputs (Reference.step 2) none (.packet 0 :: List.replicate n (.packet 0)) =
      some (.passed false) :: List.replicate n (some (.dropped false)) := by
  have hsame : Reference.step 2 (some ⟨0, {0}⟩) (.packet 0) =
      (some ⟨0, {0}⟩, some (.dropped false)) := rfl
  have hrest : outputs (Reference.step 2) (some ⟨0, {0}⟩) (List.replicate n (.packet 0)) =
      List.replicate n (some (.dropped false)) := by
    induction n with
    | zero => rfl
    | succ n ih => rw [List.replicate_succ, outputs_cons, hsame, ih, List.replicate_succ]
  rw [outputs_cons]
  exact congrArg _ hrest

theorem tally_repeated (n : Nat) :
    tally (some (.passed false) :: List.replicate n (some (.dropped false))) = ⟨1, n, 0, 0⟩ := by
  simp [tally, List.countP_replicate, List.count_replicate]

/-- One packet and its repetitions, one more of them than the largest `int`. The filter drops
all of these, and the counter shows a negative number. -/
theorem vectorRecovery_discarded_wraps :
    (tally (outputs (Reference.step 2) none
        (.packet 0 :: List.replicate 2147483648 (.packet 0)))).discarded = 2147483648 ∧
      (final recoveryStep (newSeqRec .rcvyVector false false 2 2000)
        (.packet 0 :: List.replicate 2147483648 (.packet 0))).counts.discarded =
        -2147483648 := by
  have hcounts := (final_simulates (H := 2) (by decide) (by decide) false false 2000
    (.packet 0 :: List.replicate 2147483648 (.packet 0))).2
  have htally := (congrArg tally (outputs_repeated 2147483648)).trans (tally_repeated 2147483648)
  exact ⟨congrArg RecoveryCounts.discarded htally, congrArg RecoveryCounts.discarded
    (hcounts.trans (congrArg asInts htally))⟩

end Dnt
