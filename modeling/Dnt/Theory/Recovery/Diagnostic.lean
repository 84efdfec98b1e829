import Mathlib.Tactic.Linarith
import Dnt.Core.RecoveryThread

/-!
# Plausible Diagnoses

What the thread of a recovery says about its paths when copies are missing. At least
one path works, and at least one does not. The number of paths that work is
estimated by dividing the discarded copies by the passed packets, with a margin. If
no copy was discarded and there is no margin, the dividend is minus one, and with
one packet passed the quotient is too: no path seems to work.

## Main definitions

* `PlausibleAlerts`: The test divides by no zero, and all its reports are plausible.
* `LonePacket`: One packet was passed, none discarded, and there is no margin.

## Theorems

* `latentErrorTest_plausible_iff`: The reports are plausible just if none is about a lone
  packet.
-/

namespace Dnt

/-- The number of paths that are reported not to work. -/
def RecoveryAlert.paths : RecoveryAlert → Option Int
  | .disfunctioningPaths paths => some paths
  | .disfunctioningPathsAbsent paths => some paths
  | _ => none

/-- A number of paths in a report leaves at least one path that does not work, and one that
does. -/
def RecoveryAlert.Plausible (paths : Int) (alert : RecoveryAlert) : Prop :=
  ∀ n ∈ alert.paths, 1 ≤ n ∧ n ≤ paths - 1

/-- The test divides by no zero, and all its reports are plausible. -/
def PlausibleAlerts (r : MonitoredRecovery) : Prop :=
  ∃ r' alerts, latentErrorTest r = some (r', alerts) ∧
    ∀ alert ∈ alerts, alert.Plausible r.latentErrorPaths

/-- One packet was passed since the last test, no copy discarded, and no difference is
allowed. -/
def LonePacket (r : MonitoredRecovery) : Prop :=
  r.diag.latentErrorDifference = 0 ∧ r.recovery.discardedPackets = r.discardedPacketsLast ∧
    r.recovery.passedPackets = r.passedPacketsLast + 1

/-! ## Arithmetic -/

theorem unsigned32_of_nonneg (a : Int) (hlow : 0 ≤ a) (hhigh : a < 2 ^ 31) : unsigned32 a = a := by
  unfold unsigned32
  omega

theorem signed32_of_small (a : Int) (hlow : 0 ≤ a) (hhigh : a < 2 ^ 31) : signed32 a = a := by
  unfold signed32
  rw [Int.bmod_eq_of_le] <;> omega

theorem working_lt (a paths passed : Int) (hpassed : 0 < passed) (hlow : 0 ≤ a)
    (hhigh : a < (paths - 1) * passed) :
    0 ≤ a.tdiv passed ∧ a.tdiv passed ≤ paths - 2 := by
  rw [Int.tdiv_eq_ediv_of_nonneg hlow]
  have hlt : a / passed < paths - 1 := Int.ediv_lt_of_lt_mul hpassed hhigh
  exact ⟨Int.ediv_nonneg hlow hpassed.le, by omega⟩

/-! ## The reports -/

variable (r : MonitoredRecovery)

/-- The report when the quotients count between none and all but one of the other paths. -/
theorem pathsAlert_plausible (discarded ceil floor : Int) (hpaths : 2 ≤ r.latentErrorPaths)
    (hint : r.latentErrorPaths < 2 ^ 31) (hceil : 0 ≤ ceil ∧ ceil ≤ r.latentErrorPaths - 2) :
    (pathsAlert r discarded ceil floor).Plausible r.latentErrorPaths := by
  have habsent := signed32_of_small (r.latentErrorPaths - 2 - ceil) (by omega) (by omega)
  have hdisfunct := signed32_of_small (r.latentErrorPaths - 1 - ceil) (by omega) (by omega)
  -- three of the four reports have a number of paths in them
  unfold pathsAlert
  rw [habsent, hdisfunct]
  dsimp only
  split_ifs with hfew hsame hsome
  · rintro n ⟨⟩
    omega
  · rintro n ⟨⟩
    omega
  · rintro n ⟨⟩
  · rintro n ⟨⟩
    omega

/-- Copies are missing: the discarded ones and the margin are no more than there should be, and
not all are there. -/
theorem pathsAlert_plausible_iff {discarded passed : Int} (hpaths : 2 ≤ r.latentErrorPaths)
    (hint : r.latentErrorPaths < 2 ^ 31) (hmargin : 0 ≤ r.diag.latentErrorDifference)
    (hdiscarded : 0 ≤ discarded) (hpassed : 0 < passed)
    (hmissing : discarded + r.diag.latentErrorDifference ≤ (r.latentErrorPaths - 1) * passed)
    (hless : discarded < (r.latentErrorPaths - 1) * passed) :
    (pathsAlert r discarded
        (unsigned32 ((discarded + r.diag.latentErrorDifference - 1).tdiv passed))
        (unsigned32 ((discarded - r.diag.latentErrorDifference).tdiv passed))).Plausible
          r.latentErrorPaths ↔
      ¬ (r.diag.latentErrorDifference = 0 ∧ discarded = 0 ∧ passed = 1) := by
  by_cases hzero : discarded + r.diag.latentErrorDifference = 0
  · -- the dividend is minus one, and the quotient is zero or minus one
    have hd : discarded = 0 := by omega
    have hL : r.diag.latentErrorDifference = 0 := by omega
    subst hd
    rw [hL]
    by_cases hone : passed = 1
    · -- minus one as an `unsigned`, and back in an `int` one path more than there should be
      subst hone
      refine iff_of_false ?_ (not_not_intro ⟨rfl, rfl, rfl⟩)
      have hreport : signed32 (r.latentErrorPaths - 1 - 4294967295) = r.latentErrorPaths := by
        unfold signed32
        rw [Int.bmod_def]
        omega
      intro hplausible
      have hn := hplausible r.latentErrorPaths ?_
      · omega
      · unfold pathsAlert
        rw [hL, if_neg (by decide), if_neg (by decide)]
        exact congrArg some hreport
    · have hq : (0 + 0 - 1 : Int).tdiv passed = 0 := by
        rw [show (0 + 0 - 1 : Int) = -1 from rfl, Int.neg_tdiv, Int.tdiv_eq_zero_of_lt (by decide)
          (by omega), Int.neg_zero]
      rw [hq]
      refine iff_of_true ?_ fun h => hone h.2.2
      exact pathsAlert_plausible r 0 (unsigned32 0) _ hpaths hint ⟨le_refl _, by
        rw [unsigned32_of_nonneg 0 (le_refl _) (by decide)]
        omega⟩
  · -- the dividend is not negative, and the conversions do nothing
    obtain ⟨hlow, hhigh⟩ := working_lt (discarded + r.diag.latentErrorDifference - 1)
      r.latentErrorPaths passed hpassed (by omega) (by omega)
    refine iff_of_true ?_ fun h => hzero (by omega)
    rw [unsigned32_of_nonneg _ hlow (by omega)]
    exact pathsAlert_plausible r discarded _ _ hpaths hint ⟨hlow, hhigh⟩

theorem reportPackets_paths : ∀ alert ∈ (reportPackets r).2, alert.paths = none := by
  unfold reportPackets
  dsimp only
  split_ifs <;> simp [RecoveryAlert.paths]

theorem recoveryDiagnostic_plausible_iff (hpaths : 2 ≤ r.latentErrorPaths)
    (hint : r.latentErrorPaths < 2 ^ 31) (hmargin : 0 ≤ r.diag.latentErrorDifference)
    (hdiscarded : r.discardedPacketsLast ≤ r.recovery.discardedPackets)
    (hpassed : r.passedPacketsLast < r.recovery.passedPackets) :
    (∃ r' alerts, recoveryDiagnostic r = some (r', alerts) ∧
        ∀ alert ∈ alerts, alert.Plausible r.latentErrorPaths) ↔
      ¬ (r.recovery.regular.takeAny = false ∧ LonePacket r) := by
  have hp : 0 < r.passedDiff := by
    unfold MonitoredRecovery.passedDiff
    omega
  have hd : 0 ≤ r.discardedDiff := by
    unfold MonitoredRecovery.discardedDiff
    omega
  have hlone : LonePacket r ↔
      r.diag.latentErrorDifference = 0 ∧ r.discardedDiff = 0 ∧ r.passedDiff = 1 := by
    unfold LonePacket MonitoredRecovery.discardedDiff MonitoredRecovery.passedDiff
    omega
  obtain ⟨r', alerts, heq, hcase⟩ := recoveryDiagnostic_case hpaths
  have hresult : (∃ r' alerts, recoveryDiagnostic r = some (r', alerts) ∧
      ∀ alert ∈ alerts, alert.Plausible r.latentErrorPaths) ↔
        ∀ alert ∈ alerts, alert.Plausible r.latentErrorPaths := by
    simp [heq, and_assoc]
  rw [hresult, hlone]
  cases hcase with
  | nothing h =>
    refine iff_of_true (List.forall_mem_nil _) fun hno => ?_
    rcases h with htake | hzero
    · exact Bool.false_ne_true (hno.1.symm.trans htake)
    · omega
  | expected _ _ hlow hhigh => exact iff_of_true (List.forall_mem_nil _) fun hno => by omega
  | more _ _ hmore percent =>
    refine iff_of_true (List.forall_mem_singleton.mpr ?_) fun hno => ?_
    · rintro n ⟨⟩
    · -- with no copies there cannot be too many
      obtain ⟨-, hL, hzero, hone⟩ := hno
      unfold MonitoredRecovery.excess at hmore
      rw [hL, hzero, hone] at hmore
      omega
  | missing htake _ hmissing hless =>
    unfold MonitoredRecovery.excess at hmissing hless
    have hiff := pathsAlert_plausible_iff r hpaths hint hmargin hd hp (by omega) (by omega)
    simp only [htake, true_and]
    rw [List.forall_mem_cons, hiff]
    refine and_iff_left ?_
    intro alert hother n hn
    rw [reportPackets_paths r alert hother] at hn
    cases hn

/-- Whatever the number of paths, the margin and the counters: the test divides by no zero,
and reports between one and all but one paths, if and only if it does not judge a lone
packet. -/
theorem latentErrorTest_plausible_iff (hpaths : 2 ≤ r.latentErrorPaths)
    (hint : r.latentErrorPaths < 2 ^ 31) (hmargin : 0 ≤ r.diag.latentErrorDifference)
    (hpassed : r.passedPacketsLast < r.recovery.passedPackets)
    (hdiscarded : r.discardedPacketsLast ≤ r.recovery.discardedPackets) :
    PlausibleAlerts r ↔
      ¬ (0 < r.diag.latentErrorPeriod ∧ r.recovery.regular.takeAny = false ∧ LonePacket r) := by
  unfold PlausibleAlerts
  rcases latentErrorTest_cases r with ⟨hoff, heq⟩ | ⟨hon, errors, heq⟩
  · rw [heq]
    refine iff_of_true ⟨r, [], rfl, List.forall_mem_nil _⟩ fun h => hoff ⟨?_, h.1⟩
    omega
  · rw [heq]
    have hiff := recoveryDiagnostic_plausible_iff { r with latentErrors := errors } hpaths hint
      hmargin hdiscarded hpassed
    refine hiff.trans ?_
    exact not_congr ⟨fun h => ⟨hon.2, h⟩, fun h => h.2⟩

def countedRecovery (difference passed discarded : Int) : MonitoredRecovery :=
  let r := newMonitoredRecovery "rec" .rcvyVector false false 2 2000 ⟨3, 100, 0, difference, 0⟩
  { r with recovery :=
    { r.recovery with
      regular := ⟨7, false, [true, true]⟩
      passedPackets := passed
      discardedPackets := discarded } }

/-- Ten packets with one copy each, where there should be two: one path does not work. -/
theorem latentErrorTest_plausible_onePath :
    PlausibleAlerts (countedRecovery 2 10 10) ∧
      (latentErrorTest (countedRecovery 2 10 10)).map Prod.snd =
        some [.disfunctioningPaths 1] :=
  ⟨(latentErrorTest_plausible_iff (countedRecovery 2 10 10) (by decide) (by decide) (by decide)
    (by decide) (by decide)).mpr fun h => absurd h.2.2.1 (by decide), by decide⟩

/-- One packet without copies and without a margin: of three paths, three do not work. -/
theorem latentErrorTest_allPaths :
    (latentErrorTest (countedRecovery 0 1 0)).map Prod.snd = some [.disfunctioningPaths 3] ∧
      ¬ PlausibleAlerts (countedRecovery 0 1 0) := by
  have hreport : (latentErrorTest (countedRecovery 0 1 0)).map Prod.snd =
      some [.disfunctioningPaths 3] := by decide
  refine ⟨hreport, ?_⟩
  rintro ⟨r', alerts, heq, hall⟩
  rw [heq] at hreport
  cases hreport
  have hthree := hall _ List.mem_cons_self 3 rfl
  exact absurd hthree.2 (by decide)

end Dnt
