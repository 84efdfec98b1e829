import Dnt.Core.PathMask

/-!
# Paths Are Counted

The recovery has a counter of the paths that are left, a mark for each masked
input, and a session at the maintenance point behind it, and each signal changes
them by a little.

## Main definitions

* `PathMove`: What a signal can do to a recovery.
* `PathsOk`: What holds between two signals.
* `startedLast`: The session was started more recently than stopped.

## Theorems

* `maskRun_paths`: Over every run of signals, the counter and the number of marks make up the
  configured number of paths, and the session runs just while no path is left.
-/

namespace Dnt

open Mealy

variable {started : Bool} {admin : Int} {r : MaskRecovery} {mip : String}

/-- How many inputs are marked. -/
def maskedInputs (r : MaskRecovery) : Nat :=
  (r.preAutoMip.getD []).countP fun e => e.2.masked

/-- A signal is refused: nothing changes. -/
def RefusedUnchanged (s : MaskSystem) (signal : MaskSignal) : Prop :=
  (maskStep s signal).2.result = false →
    (maskStep s signal).1 = s ∧ (maskStep s signal).2.notified = none ∧
      (maskStep s signal).2.session = none

/-- What a signal can do to a recovery: nothing, or a path is lost or comes back.
All that counts about an accepted signal is the counter, the marks, and the
session call. -/
inductive PathMove (r : MaskRecovery) : MaskRecovery × MaskOutput → Prop
  | refused (error : String) : PathMove r (r, .refused error)
  | masked (r' : MaskRecovery) (out : MaskOutput) (hresult : out.result = true)
      (hadmin : r'.adminLatentErrorPaths = r.adminLatentErrorPaths)
      (hpost : r'.postAutoMip = r.postAutoMip) (hleft : 0 < r.latentErrorPaths)
      (hpaths : r'.latentErrorPaths = r.latentErrorPaths - 1)
      (hmarks : maskedInputs r' = maskedInputs r + 1)
      (hsession : out.session =
        if r'.latentErrorPaths = 0 then some (.start r.postAutoMip) else none) :
      PathMove r (r', out)
  | unmasked (r' : MaskRecovery) (out : MaskOutput) (hresult : out.result = true)
      (hadmin : r'.adminLatentErrorPaths = r.adminLatentErrorPaths)
      (hpost : r'.postAutoMip = r.postAutoMip)
      (hpaths : r'.latentErrorPaths = r.latentErrorPaths + 1)
      (hmarks : maskedInputs r' + 1 = maskedInputs r)
      (hsession : out.session =
        if r'.latentErrorPaths = 1 then some (.stop r.postAutoMip) else none) :
      PathMove r (r', out)

variable {mpHash : HashMap MaskPoint} {x : MaskRecovery × MaskOutput} {s : MaskSystem}

theorem maskedInputs_set {preAutoMip : HashMap MaskState} (hpre : r.preAutoMip = some preAutoMip)
    {mipName : String} {old : MaskState} (new : MaskState)
    (hfind : hashmapFind preAutoMip mipName = some old) (paths : Int) :
    maskedInputs (latentErrorReset { r with
          preAutoMip := some (hashmapInsert preAutoMip mipName new)
          latentErrorPaths := paths }) + old.masked.toNat = maskedInputs r + new.masked.toNat := by
  have hcount := countP_hashmapInsert MaskState.masked new hfind
  simpa only [maskedInputs, latentErrorReset, hpre, Option.getD_some] using hcount

theorem seqRecPathMasked_move (r : MaskRecovery) (mipName : String) :
    PathMove r (seqRecPathMasked r mipName) := by
  unfold seqRecPathMasked
  cases hpre : r.preAutoMip with
  | none => exact PathMove.refused _
  | some preAutoMip =>
    cases hfind : hashmapFind preAutoMip mipName with
    | none =>
      simp only [hfind]
      exact PathMove.refused _
    | some premip =>
      simp only [hfind]
      by_cases hmasked : premip.masked = true
      · rw [if_pos hmasked]
        exact PathMove.refused _
      · rw [if_neg hmasked]
        by_cases hleft : r.latentErrorPaths ≤ 0
        · rw [if_pos hleft]
          exact PathMove.refused _
        · rw [if_neg hleft]
          have hmarks := maskedInputs_set hpre ⟨true⟩ hfind (r.latentErrorPaths - 1)
          rw [Bool.eq_false_of_not_eq_true hmasked] at hmarks
          exact PathMove.masked _ _ rfl rfl rfl (Int.not_le.mp hleft) rfl hmarks rfl

theorem seqRecPathUnmasked_move (r : MaskRecovery) (mipName : String) :
    PathMove r (seqRecPathUnmasked r mipName) := by
  unfold seqRecPathUnmasked
  cases hpre : r.preAutoMip with
  | none => exact PathMove.refused _
  | some preAutoMip =>
    cases hfind : hashmapFind preAutoMip mipName with
    | none =>
      simp only [hfind]
      exact PathMove.refused _
    | some premip =>
      simp only [hfind]
      by_cases hmasked : premip.masked = false
      · rw [if_pos hmasked]
        exact PathMove.refused _
      · rw [if_neg hmasked]
        by_cases hfull : r.latentErrorPaths ≥ r.adminLatentErrorPaths
        · rw [if_pos hfull]
          exact PathMove.refused _
        · rw [if_neg hfull]
          have hmarks := maskedInputs_set hpre ⟨false⟩ hfind (r.latentErrorPaths + 1)
          rw [Bool.eq_true_of_not_eq_false hmasked] at hmarks
          exact PathMove.unmasked _ _ rfl rfl rfl rfl hmarks rfl

theorem maskStep_move (s : MaskSystem) (signal : MaskSignal) :
    PathMove s.recovery ((maskStep s signal).1.recovery, (maskStep s signal).2) ∧
      (maskStep s signal).1.mpHash = applySession s.mpHash (maskStep s signal).2.session := by
  cases signal with
  | masked mipName => exact ⟨seqRecPathMasked_move s.recovery mipName, rfl⟩
  | unmasked mipName => exact ⟨seqRecPathUnmasked_move s.recovery mipName, rfl⟩

theorem refusedUnchanged (s : MaskSystem) (signal : MaskSignal) : RefusedUnchanged s signal := by
  rcases maskStep_move s signal with ⟨hmove, hmps⟩
  unfold RefusedUnchanged
  generalize maskStep s signal = step at hmove hmps
  rcases step with ⟨⟨r, mps⟩, out⟩
  intro hresult
  cases hmove with
  | refused error =>
    cases hmps
    exact ⟨rfl, rfl, rfl⟩
  | masked r out haccepted => exact absurd (hresult.symm.trans haccepted) Bool.false_ne_true
  | unmasked r out haccepted => exact absurd (hresult.symm.trans haccepted) Bool.false_ne_true

/-! ## The session -/

/-- Whether the session counts as started after a call to the maintenance point
behind the recovery, or after no call. -/
def startedAfter (started : Bool) : Option SessionCall → Bool
  | some (.start _) => true
  | some (.stop _) => false
  | none => started

/-- The session was started more recently than stopped, where `started` says so of
the calls before. -/
def startedLast (started : Bool) : List MaskOutput → Bool
  | [] => started
  | out :: outs => startedLast (startedAfter started out.session) outs

/-- What every signal keeps true. -/
structure PathsOk (admin : Int) (mip : String) (r : MaskRecovery) (started : Bool) : Prop where
  admin_eq : r.adminLatentErrorPaths = admin
  admin_pos : 1 ≤ admin
  post : r.postAutoMip = some mip
  left : 0 ≤ r.latentErrorPaths
  paths : r.latentErrorPaths + (maskedInputs r : Int) = admin
  started_iff : started = true ↔ r.latentErrorPaths = 0

theorem pathMove_ok (hok : PathsOk admin mip r started) (hmove : PathMove r x) :
    PathsOk admin mip x.1 (startedAfter started x.2.session) := by
  have hadmin := hok.admin_pos
  have hleft := hok.left
  have hpaths := hok.paths
  cases hmove with
  | refused error => exact hok
  | masked r' out hresult hadmin' hpost hpos hcount hmarks hsession =>
    have hleft' : 0 ≤ r'.latentErrorPaths := by omega
    have hpaths' : r'.latentErrorPaths + (maskedInputs r' : Int) = admin := by omega
    refine ⟨hadmin'.trans hok.admin_eq, hadmin, hpost.trans hok.post, hleft', hpaths', ?_⟩
    rw [hsession]
    by_cases hzero : r'.latentErrorPaths = 0
    · rw [if_pos hzero]
      exact iff_of_true rfl hzero
    · -- there was a path left before, so the session was not started
      rw [if_neg hzero]
      have hbefore : r.latentErrorPaths ≠ 0 := by omega
      exact iff_of_false (mt hok.started_iff.mp hbefore) hzero
  | unmasked r' out hresult hadmin' hpost hcount hmarks hsession =>
    have hleft' : 0 ≤ r'.latentErrorPaths := by omega
    have hpaths' : r'.latentErrorPaths + (maskedInputs r' : Int) = admin := by omega
    refine ⟨hadmin'.trans hok.admin_eq, hadmin, hpost.trans hok.post, hleft', hpaths', ?_⟩
    have hpos : r'.latentErrorPaths ≠ 0 := by omega
    rw [hsession]
    by_cases hone : r'.latentErrorPaths = 1
    · rw [if_pos hone]
      exact iff_of_false Bool.false_ne_true hpos
    · -- there was a path left before this one, too
      rw [if_neg hone]
      have hbefore : r.latentErrorPaths ≠ 0 := by omega
      exact iff_of_false (mt hok.started_iff.mp hbefore) hpos

theorem maskRun_ok (hok : PathsOk admin mip s.recovery started) (signals : List MaskSignal) :
    PathsOk admin mip (final maskStep s signals).recovery
      (startedLast started (outputs maskStep s signals)) := by
  induction signals generalizing s started with
  | nil => exact hok
  | cons signal signals ih => exact ih (pathMove_ok hok (maskStep_move s signal).1)

theorem withMaskPoint_find {mp : MaskPoint} (hfind : hashmapFind mpHash mip = some mp)
    {f : MaskPoint → MaskPoint × Bool} :
    hashmapFind (withMaskPoint mpHash (some mip) f) mip = some (f mp).1 := by
  simp only [withMaskPoint, hfind]
  rw [hashmapFind_insert, if_pos rfl]

theorem applySession_find {send : Bool}
    (hfind : hashmapFind mpHash mip = some ⟨true, send⟩) {call : Option SessionCall}
    (hcall : ∀ target, call = some (.start target) ∨ call = some (.stop target) →
      target = some mip) :
    hashmapFind (applySession mpHash call) mip = some ⟨true, startedAfter send call⟩ := by
  cases call with
  | none => exact hfind
  | some call =>
    cases call with
    | start target =>
      rw [hcall target (Or.inl rfl)]
      exact withMaskPoint_find hfind
    | stop target =>
      rw [hcall target (Or.inr rfl)]
      refine (withMaskPoint_find hfind).trans ?_
      cases send <;> rfl

theorem pathMove_session (hmove : PathMove r x) {target : Option String}
    (hcall : x.2.session = some (.start target) ∨ x.2.session = some (.stop target)) :
    target = r.postAutoMip := by
  cases hmove with
  | refused error => rcases hcall with h | h <;> cases h
  | masked r' out hresult hadmin hpost hpos hcount hmarks hsession =>
    rw [hsession] at hcall
    grind
  | unmasked r' out hresult hadmin hpost hcount hmarks hsession =>
    rw [hsession] at hcall
    grind

theorem maskRun_session (hok : PathsOk admin mip s.recovery started)
    (hfind : hashmapFind s.mpHash mip = some ⟨true, started⟩) (signals : List MaskSignal) :
    hashmapFind (final maskStep s signals).mpHash mip =
      some ⟨true, startedLast started (outputs maskStep s signals)⟩ := by
  induction signals generalizing s started with
  | nil => exact hfind
  | cons signal signals ih =>
    rcases maskStep_move s signal with ⟨hmove, hmps⟩
    refine ih (pathMove_ok hok hmove) ?_
    rw [hmps]
    refine applySession_find hfind fun target hcall => ?_
    rw [pathMove_session hmove hcall, hok.post]

/-! ## Runs -/

def registered (name : String) (recovery : SequenceRecovery) (admin : Int) (inputs : List String)
    (mip : String) : MaskRecovery :=
  seqRecRegisterPostAutoMip
    (inputs.foldl seqRecRegisterPreAutoMip (newMaskRecovery name recovery admin)) mip

theorem countP_hashmapInsert_unmasked {h : HashMap MaskState} (mipName : String)
    (hnone : List.countP (fun e => e.2.masked) h = 0) :
    List.countP (fun e => e.2.masked) (hashmapInsert h mipName ⟨false⟩) = 0 := by
  induction h with
  | nil => rfl
  | cons e rest ih =>
    rw [List.countP_cons] at hnone
    have hrest : List.countP (fun e => e.2.masked) rest = 0 := by omega
    unfold hashmapInsert
    grind

theorem registered_inputs (r : MaskRecovery) (inputs : List String) (hnone : maskedInputs r = 0) :
    maskedInputs (inputs.foldl seqRecRegisterPreAutoMip r) = 0 ∧
      (inputs.foldl seqRecRegisterPreAutoMip r).latentErrorPaths = r.latentErrorPaths ∧
      (inputs.foldl seqRecRegisterPreAutoMip r).adminLatentErrorPaths = r.adminLatentErrorPaths ∧
      (inputs.foldl seqRecRegisterPreAutoMip r).postAutoMip = r.postAutoMip := by
  induction inputs generalizing r with
  | nil => exact ⟨hnone, rfl, rfl, rfl⟩
  | cons input inputs ih =>
    exact ih (seqRecRegisterPreAutoMip r input)
      (countP_hashmapInsert_unmasked input hnone)

theorem registered_ok (name : String) (recovery : SequenceRecovery) (hadmin : 1 ≤ admin)
    (inputs : List String) (mip : String) :
    PathsOk admin mip (registered name recovery admin inputs mip) false := by
  rcases registered_inputs (newMaskRecovery name recovery admin) inputs rfl with
    ⟨hmarks, hleft, hadmin', hpost⟩
  unfold registered seqRecRegisterPostAutoMip
  rw [hpost]
  refine ⟨hadmin', hadmin, rfl, ?_, ?_, ?_⟩
  · show 0 ≤ (inputs.foldl seqRecRegisterPreAutoMip _).latentErrorPaths
    rw [hleft]
    exact (by omega : (0 : Int) ≤ admin)
  · show (inputs.foldl seqRecRegisterPreAutoMip _).latentErrorPaths +
      (maskedInputs (inputs.foldl seqRecRegisterPreAutoMip _) : Int) = admin
    rw [hleft, hmarks]
    exact Int.add_zero admin
  · show false = true ↔ (inputs.foldl seqRecRegisterPreAutoMip _).latentErrorPaths = 0
    rw [hleft]
    exact iff_of_false Bool.false_ne_true (by show admin ≠ 0; omega)

/-- Every run of signals, whatever names they carry. The paths left and the
marked inputs make up the configured number of paths, a refused signal does
nothing, and the session was started more recently than stopped exactly when
no path is left. If the output can send, this is also when its thread runs. -/
theorem maskRun_paths (name : String) (recovery : SequenceRecovery) (admin : Int)
    (hadmin : 1 ≤ admin) (inputs : List String) (mip : String) (mpHash : HashMap MaskPoint)
    (signals : List MaskSignal) :
    let start : MaskSystem := ⟨registered name recovery admin inputs mip, mpHash⟩
    let final := final maskStep start signals
    let started := startedLast false (outputs maskStep start signals)
    final.recovery.latentErrorPaths + (maskedInputs final.recovery : Int) = admin ∧
      0 ≤ final.recovery.latentErrorPaths ∧ final.recovery.latentErrorPaths ≤ admin ∧
      (∀ signal, RefusedUnchanged final signal) ∧
      (started = true ↔ final.recovery.latentErrorPaths = 0) ∧
      (hashmapFind mpHash mip = some ⟨true, false⟩ →
        hashmapFind final.mpHash mip = some ⟨true, final.recovery.latentErrorPaths = 0⟩) := by
  intro start final started
  have hstart : PathsOk admin mip start.recovery false :=
    registered_ok name recovery hadmin inputs mip
  have hok : PathsOk admin mip final.recovery started := maskRun_ok hstart signals
  have hpaths := hok.paths
  refine ⟨hok.paths, hok.left, by omega, refusedUnchanged final, hok.started_iff, ?_⟩
  intro hfind
  have hsession : hashmapFind final.mpHash mip = some ⟨true, started⟩ :=
    maskRun_session hstart hfind signals
  rw [hsession]
  exact congrArg (fun send => some (MaskPoint.mk true send)) (Bool.eq_iff_iff.mpr
    (hok.started_iff.trans decide_eq_true_iff.symm))

/-- Two inputs for two paths: both are masked, and the session runs. -/
theorem maskRun_paths_both_masked :
    hashmapFind (final maskStep
      ⟨registered "rec" (newSeqRec .rcvyVector false false 4 100) 2
        ["o_a_L1_pre-rec", "o_b_L1_pre-rec"] "o_c_L1_post-rec",
        [("o_c_L1_post-rec", ⟨true, false⟩)]⟩
      [.masked "o_a_L1_pre-rec", .masked "o_b_L1_pre-rec"]).mpHash "o_c_L1_post-rec" =
        some ⟨true, true⟩ :=
  (maskRun_paths "rec" (newSeqRec .rcvyVector false false 4 100) 2 (by decide)
    ["o_a_L1_pre-rec", "o_b_L1_pre-rec"] "o_c_L1_post-rec" [("o_c_L1_post-rec", ⟨true, false⟩)]
    [.masked "o_a_L1_pre-rec", .masked "o_b_L1_pre-rec"]).2.2.2.2.2 (by decide)

end Dnt
