import Mathlib.Data.List.Infix
import Dnt.Theory.Recovery.Tracks

/-!
# Hitless Switching

Two copies of a generated stream reach one seamless recovery over two paths, each in
order and without loss. The generator may be restarted while the slower path still
delivers the end of the previous epoch. A RESET flag within `2 * H` of the newest number
is ignored, since it may be a late copy of an earlier restart, so an epoch has to be longer
than that.

## Main definitions

* `arrivals`: Which packet of the stream arrives at each step.
* `Ready`: The recovery object once the first packets of the stream have arrived.
* `passCount`: How often a packet is passed.

## Theorems

* `seamless_hitless`: Every packet is passed exactly once, if the paths are at most `H`
  packets apart.
-/

namespace Dnt

open List

variable {r : SequenceRecovery}

inductive Path where
  | first
  | second
  deriving DecidableEq, Repr

/-- Which packet of the stream arrives at each step, when the paths have
delivered `a` and `b` packets. Each path delivers in order, without loss. -/
def arrivals : Nat → Nat → List Path → List Nat
  | _, _, [] => []
  | a, b, .first :: ps => a :: arrivals (a + 1) b ps
  | a, b, .second :: ps => b :: arrivals a (b + 1) ps

/-- The packets in the order of their arrival, with what is decided about them. -/
def decisions (r : SequenceRecovery) (words : List Nat) (ks : List Nat) :
    List (Nat × Option Bool) :=
  ks.zip (Mealy.outputs recoveryStep r (ks.map fun k => .packet (words.getD k 0)))

def passCount (r : SequenceRecovery) (words : List Nat) (ks : List Nat) (k : Nat) : Nat :=
  (decisions r words ks).count (k, some true)

variable {j m n : Nat} {st : Stamp}

theorem passCount_cons (r : SequenceRecovery) (words : List Nat) (j : Nat) (ks : List Nat)
    (k : Nat) : passCount r words (j :: ks) k =
      passCount (seqRecovery r (words.getD j 0)).2 words ks k +
        if j = k ∧ (seqRecovery r (words.getD j 0)).1 = true then 1 else 0 := by
  simp only [passCount, decisions, map_cons, Mealy.outputs_cons, zip_cons_cons,
    recoveryStep, count_cons, beq_iff_eq, Prod.mk.injEq, Option.some.injEq]

/-- The recovery object once the first `m` packets of the stream have arrived
at least once. -/
structure Ready (H start : Nat) (sts : List Stamp) (m : Nat) (r : SequenceRecovery) : Prop where
  configured : Configured H r
  fresh : m = 0 → r.initial = ⟨0, true, List.replicate H false⟩ ∧
    r.regular = ⟨0, true, List.replicate H false⟩
  tracks : ∀ n, m = n + 1 → ∃ st, sts[n]? = some st ∧ Tracks H start st r.initial r.regular

section Delivery

variable {H start : Nat} (hH : 1 ≤ H) (hstart : start + 4 * H ≤ 65536) {sts : List Stamp}
  (hchain : sts.IsChain (Follows (2 * H + 1))) (hhead : ∀ st ∈ sts.head?, st = ⟨0, none⟩)

theorem ready_of_outcome (hget : sts[n]? = some st) {res : Bool × SequenceRecovery} {acc : Bool}
    {initial regular : SeqSpace} (hout : Outcome H res acc initial regular)
    (htracks : Tracks H start st initial regular) : Ready H start sts (n + 1) res.2 := by
  refine ⟨hout.configured, fun h => absurd h (Nat.succ_ne_zero n), fun n' hn' => ?_⟩
  obtain rfl : n = n' := by omega
  refine ⟨st, hget, ?_⟩
  rw [hout.initial, hout.regular]
  exact htracks

include hH hstart hchain hhead

theorem ready_lead (hget : sts[m]? = some st) (h : Ready H start sts m r) :
    (seqRecovery r (epochWord start st.offset)).1 = true ∧
      Ready H start sts (m + 1) (seqRecovery r (epochWord start st.offset)).2 := by
  -- nothing has arrived yet, or the packet follows the newest one
  rcases m with _ | n
  · obtain rfl : st = ⟨0, none⟩ := hhead st (by rw [head?_eq_getElem?]; exact hget)
    rcases h.fresh rfl with ⟨hinitial, hregular⟩
    rcases tracks_first hH hstart h.configured hinitial hregular with
      ⟨initial, regular, hout, htracks⟩
    exact ⟨hout.accept, ready_of_outcome hget hout htracks⟩
  · rcases follows_of_isChain hchain hget with ⟨last, hlast, hfollows⟩
    rcases h.tracks n rfl with ⟨st0, hst0, htracks0⟩
    obtain rfl : last = st0 := by
      rw [hlast] at hst0
      exact Option.some.inj hst0
    rcases hfollows with rfl | ⟨hlong, rfl⟩
    · rcases tracks_next hH hstart h.configured htracks0 with
        ⟨initial, regular, hout, htracks⟩
      exact ⟨hout.accept, ready_of_outcome hget hout htracks⟩
    · rcases tracks_restart hH hstart h.configured htracks0 hlong with
        ⟨initial, regular, hout, htracks⟩
      exact ⟨hout.accept, ready_of_outcome hget hout htracks⟩

omit hhead in
theorem ready_lag {i : Nat} (hi : i < H) (hin : i ≤ n) (hget : sts[n - i]? = some st)
    (h : Ready H start sts (n + 1) r) : (seqRecovery r (epochWord start st.offset)).1 = false ∧
      Ready H start sts (n + 1) (seqRecovery r (epochWord start st.offset)).2 := by
  rcases h.tracks n rfl with ⟨top, htop, htracks⟩
  rcases stamp_back hchain htop hin with ⟨hsame, hback⟩
  -- going back `i` packets stays in the epoch or ends in the one before
  have hout : Outcome H (seqRecovery r (epochWord start st.offset)) false r.initial r.regular := by
    by_cases hle : i ≤ top.offset
    · rw [hsame hle, Option.some.injEq] at hget
      rw [← hget]
      exact tracks_late hH hstart h.configured htracks hi hle
    · rcases hback (by omega) (by omega) with ⟨L, p, hprev, hlong, hback⟩
      rw [hback, Option.some.injEq] at hget
      rw [← hget]
      exact tracks_stale hH hstart h.configured htracks hprev hlong hi (by omega)
  exact ⟨hout.accept, ready_of_outcome htop hout htracks⟩

theorem ready_arrival (hj : j ≤ m) (hskew : m ≤ j + H) (hget : sts[j]? = some st)
    (h : Ready H start sts m r) : ((seqRecovery r (epochWord start st.offset)).1 = true ↔ j = m) ∧
      Ready H start sts (max m (j + 1)) (seqRecovery r (epochWord start st.offset)).2 := by
  by_cases hlead : j = m
  · subst hlead
    rcases ready_lead hH hstart hchain hhead hget h with ⟨hacc, hready⟩
    rw [Nat.max_eq_right (by omega)]
    exact ⟨⟨fun _ => rfl, fun _ => hacc⟩, hready⟩
  · rcases m with _ | n
    · omega
    have hidx : j = n - (n - j) := by omega
    rw [hidx] at hget
    rcases ready_lag hH hstart hchain (by omega) (by omega) hget h with
      ⟨hacc, hready⟩
    rw [Nat.max_eq_left (by omega), hacc]
    exact ⟨⟨fun h => absurd h Bool.false_ne_true, fun h => absurd h hlead⟩, hready⟩

theorem passCount_arrival {M : Nat} (hj : j ≤ m) (hskew : m ≤ j + H) (hlt : j < sts.length)
    (hM : j < M) (h : Ready H start sts m r) {ks : List Nat} {k : Nat}
    (hrest : ∀ r', Ready H start sts (max m (j + 1)) r' →
      passCount r' (sts.map fun st => epochWord start st.offset) ks k =
        if max m (j + 1) ≤ k ∧ k < M then 1 else 0) :
    passCount r (sts.map fun st => epochWord start st.offset) (j :: ks) k =
      if m ≤ k ∧ k < M then 1 else 0 := by
  have hget : sts[j]? = some sts[j] := getElem?_eq_getElem hlt
  have hword : (sts.map fun st => epochWord start st.offset).getD j 0 =
      epochWord start sts[j].offset := by
    rw [getD_eq_getElem?_getD, getElem?_map, hget, Option.map_some, Option.getD_some]
  rcases ready_arrival hH hstart hchain hhead hj hskew hget h with
    ⟨hacc, hready⟩
  rw [passCount_cons, hword, hrest _ hready]
  -- the first copy counts here, and not for the rest, which begins behind it
  simp only [hacc]
  split_ifs <;> omega

/-- A whole interleaving, from the point where the paths have delivered `a` and
`b` packets: exactly the packets not seen before are passed, each once. -/
theorem passCount_arrivals {ps : List Path} (a b : Nat) (r : SequenceRecovery)
    (hready : Ready H start sts (max a b) r)
    (hskew : ∀ pre, pre <+: ps → a + pre.count .first ≤ b + pre.count .second + H ∧
      b + pre.count .second ≤ a + pre.count .first + H) (hfirst : a + ps.count .first ≤ sts.length)
    (hsecond : b + ps.count .second ≤ sts.length) (k : Nat) :
    passCount r (sts.map fun st => epochWord start st.offset) (arrivals a b ps) k =
      if max a b ≤ k ∧ k < max (a + ps.count .first) (b + ps.count .second) then 1 else 0 := by
  induction ps generalizing a b r with
  | nil =>
    rw [if_neg (by simp only [count_nil]; omega)]
    rfl
  | cons p ps ih =>
    -- the skew before this arrival bounds how far behind its packet can be
    have hnow := hskew [] nil_prefix
    simp only [count_nil, Nat.add_zero] at hnow
    cases p with
    | first =>
      have hf : (Path.first :: ps).count .first = ps.count .first + 1 := count_cons_self
      have hs : (Path.first :: ps).count .second = ps.count .second :=
        count_cons_of_ne (by decide)
      rw [hf] at hfirst
      rw [hs] at hsecond
      rw [hf, hs]
      refine passCount_arrival hH hstart hchain hhead (by omega)
        (by omega) (by omega) (by omega) hready (fun r' hr' => ?_)
      have hmax : max (max a b) (a + 1) = max (a + 1) b := by omega
      rw [hmax] at hr' ⊢
      rw [ih (a + 1) b r' hr' ?_ (by omega) hsecond]
      · rw [Nat.add_assoc a 1, Nat.add_comm 1]
      · intro pre hpre
        have hstep := hskew (.first :: pre) (cons_prefix_cons.mpr ⟨rfl, hpre⟩)
        rw [count_cons_self, count_cons_of_ne (by decide)] at hstep
        omega
    | second =>
      have hf : (Path.second :: ps).count .first = ps.count .first :=
        count_cons_of_ne (by decide)
      have hs : (Path.second :: ps).count .second = ps.count .second + 1 :=
        count_cons_self
      rw [hf] at hfirst
      rw [hs] at hsecond
      rw [hf, hs]
      refine passCount_arrival hH hstart hchain hhead (by omega)
        (by omega) (by omega) (by omega) hready (fun r' hr' => ?_)
      have hmax : max (max a b) (b + 1) = max a (b + 1) := by omega
      rw [hmax] at hr' ⊢
      rw [ih a (b + 1) r' hr' ?_ hfirst (by omega)]
      · rw [Nat.add_assoc b 1, Nat.add_comm 1]
      · intro pre hpre
        have hstep := hskew (.second :: pre) (cons_prefix_cons.mpr ⟨rfl, hpre⟩)
        rw [count_cons_self, count_cons_of_ne (by decide)] at hstep
        omega

end Delivery

/-- Hitless switching. A generator restarted any number of times, with at least
`2 * H + 1` packets in every epoch that a reset ends except that the first
epoch may be empty, feeds both paths; the paths never differ by more than
`H` packets; then each packet is passed exactly once. -/
theorem seamless_hitless (H start resetMsec : Nat) (hH : 1 ≤ H) (hstart : start + 4 * H ≤ 65536)
    (evs : List GeneratorEvent) (hspaced : ResetsSpaced (2 * H + 1) evs)
    (hfirst : GeneratorEvent.reset ∈ evs →
      beforeFirstReset evs = 0 ∨ 2 * H + 1 ≤ beforeFirstReset evs)
    (paths : List Path)
    (hskew : ∀ pre, pre <+: paths → pre.count .first ≤ pre.count .second + H ∧
      pre.count .second ≤ pre.count .first + H)
    (hall : paths.count .first = (generatedWords (newSeqGen true true start) evs).length ∧
      paths.count .second = (generatedWords (newSeqGen true true start) evs).length) :
    ∀ k < (generatedWords (newSeqGen true true start) evs).length,
      passCount (newSeqRec .rcvySeamlessVector true true H resetMsec)
        (generatedWords (newSeqGen true true start) evs) (arrivals 0 0 paths) k = 1 := by
  intro k hk
  rw [generatedWords_eq_epochWords (by omega)] at hall hk ⊢
  rw [length_map] at hall hk
  rcases stampsFrom_isChain (by omega) hspaced hfirst with ⟨hchain, hhead⟩
  -- the fresh object is ready for the first packet
  have hready : Ready H start (stampsFrom ⟨0, none⟩ evs) 0
      (newSeqRec .rcvySeamlessVector true true H resetMsec) :=
    { configured := ⟨rfl, rfl, rfl, newSeqRec_historyLength _ _ _ _ (by omega)⟩
      fresh := fun _ => ⟨rfl, rfl⟩
      tracks := fun n hn => absurd hn (by omega) }
  have hcount := passCount_arrivals hH hstart hchain hhead 0 0 _ hready
    (by simpa only [Nat.zero_add] using hskew) (by omega) (by omega) k
  rw [hcount, if_pos (by omega)]

/-- Both paths in step, over an epoch change right after three packets. -/
theorem seamless_hitless_three_two :
    passCount (newSeqRec .rcvySeamlessVector true true 1 2000)
      (generatedWords (newSeqGen true true 65532)
        [.packet, .packet, .packet, .reset, .packet, .packet])
      (arrivals 0 0 [.first, .second, .second, .first, .first, .second, .first, .second, .second,
        .first]) 3 = 1 :=
  seamless_hitless 1 65532 2000 (by decide) (by decide)
    [.packet, .packet, .packet, .reset, .packet, .packet] trivial
    (fun _ => Or.inr (by decide))
    [.first, .second, .second, .first, .first, .second, .first, .second, .second, .first]
    (fun pre hpre => (by decide : ∀ pre ∈ List.inits [Path.first, .second, .second, .first, .first,
      .second, .first, .second, .second, .first], pre.count .first ≤ pre.count .second + 1 ∧
        pre.count .second ≤ pre.count .first + 1) pre ((mem_inits _ _).mpr hpre))
    (by decide) 3 (by decide)

/-- One reset, after a single packet: the RESET flag on the first packet of the
new epoch is taken for that of a late copy, and the packet is dropped on
both paths. -/
theorem hitless_short_first_epoch :
    65532 + 4 * 1 ≤ 65536 ∧ ResetsSpaced (2 * 1 + 1) [.packet, .reset, .packet] ∧
      (∀ pre, pre <+: [Path.first, .second, .first, .second] →
        pre.count .first ≤ pre.count .second + 1 ∧ pre.count .second ≤ pre.count .first + 1) ∧
      (generatedWords (newSeqGen true true 65532) [.packet, .reset, .packet]).length = 2 ∧
      [Path.first, .second, .first, .second].count .first = 2 ∧
      [Path.first, .second, .first, .second].count .second = 2 ∧
      passCount (newSeqRec .rcvySeamlessVector true true 1 2000)
        (generatedWords (newSeqGen true true 65532) [.packet, .reset, .packet])
        (arrivals 0 0 [.first, .second, .first, .second]) 1 = 0 :=
  ⟨by decide, trivial, fun pre hpre =>
    (by decide : ∀ pre ∈ List.inits [Path.first, .second, .first, .second],
      pre.count .first ≤ pre.count .second + 1 ∧ pre.count .second ≤ pre.count .first + 1) pre
        ((mem_inits _ _).mpr hpre), by decide, by decide, by decide, by decide⟩

end Dnt
