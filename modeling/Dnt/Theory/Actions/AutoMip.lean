import Dnt.Core.ConfOam

/-!
# Generating Maintenance Points

If the stack of headers does not suit a point, `oam_mip_autoconfig` should leave the
actions as they were and let the compiler go on. It does neither: the clean-up frees the
streams of both points of the pair, and one of them is not there. That the second point
of an eliminate action fails is not possible, since the headers are still the same.

## Main definitions

* `AutoMipCall`: The calls of `oam_mip_autoconfig`.
* `FailsSoftly`: The compiler goes on, with the actions as they were.

## Theorems

* `autoMip_failsSoftly_iff`: A call fails softly just if the stack suits the point, and so it
  does not fail at all.
-/

namespace Dnt

/-- The calls of `oam_mip_autoconfig`. -/
inductive AutoMipCall where
  | elim (pipename : String)
  | repl
  | branch

def AutoMipCall.run (c : AutoMipCall) (s : StageState) (text : String) (obj : PipelineObject) :
    Compile StageState :=
  match c with
  | .elim pipename => autoMipElim s text pipename obj
  | .repl => autoMipBefore s text obj
  | .branch => autoMipBranch s text obj

/-- The compiler goes on after the call, which has left the actions as they were if no point
can be generated. -/
def FailsSoftly (s : StageState) (call : Compile StageState) : Prop :=
  ∃ s', call = .ok s' ∧ (checkHeaderStackForOam s.headers = none → s'.actions = s.actions)

variable {obj : PipelineObject}

/-- A point is generated if the headers suit it, and they stay as they are. -/
theorem pushAutoMip_cases (s : StageState) (text name stream : String)
    (hlevel : 0 ≤ obj.autoMipLevel) : (checkHeaderStackForOam s.headers = none ∧
      pushAutoMip s (autoMip text name stream obj) = .error .fault) ∨
    ((checkHeaderStackForOam s.headers).isSome = true ∧
      ∃ s', pushAutoMip s (autoMip text name stream obj) = .ok s' ∧ s'.headers = s.headers) := by
  have hne : obj.autoMipLevel ≠ -1 := by omega
  cases hstack : checkHeaderStackForOam s.headers with
  | none =>
    refine .inl ⟨rfl, ?_⟩
    simp [pushAutoMip, processMp, autoMip, orThrow, require, hne, hstack, bind, Except.bind]
  | some stack =>
    refine .inr ⟨rfl, ?_⟩
    simp [pushAutoMip, processMp, autoMip, orThrow, require, hne, hstack, bind, Except.bind, pure,
      Except.pure]

/-- A call fails softly only if it does not fail. -/
theorem autoMip_failsSoftly_iff (c : AutoMipCall) (s : StageState) (text : String)
    (obj : PipelineObject) (hlevel : 0 ≤ obj.autoMipLevel) :
    FailsSoftly s (c.run s text obj) ↔ (checkHeaderStackForOam s.headers).isSome = true := by
  have hsoft {call : Compile StageState} (hsome : (checkHeaderStackForOam s.headers).isSome = true)
      (hok : ∃ s', call = .ok s') : FailsSoftly s call := by
    obtain ⟨s', hs'⟩ := hok
    refine ⟨s', hs', fun hnone => ?_⟩
    rw [hnone] at hsome
    cases hsome
  constructor
  · rintro ⟨s', hcall, -⟩
    by_contra hnone
    rw [Option.not_isSome_iff_eq_none] at hnone
    have hfault (text name stream : String) :
        pushAutoMip s (autoMip text name stream obj) = .error .fault := by
      obtain h | h := pushAutoMip_cases s text name stream hlevel
      · exact h.2
      · rw [hnone] at h
        cases h.1
    cases c <;>
      simp [AutoMipCall.run, autoMipElim, autoMipBefore, autoMipBranch, hfault, bind,
        Except.bind] at hcall
  · intro hsome
    refine hsoft hsome ?_
    have hpush {t : StageState} (hheaders : t.headers = s.headers) (text name stream : String) :
        ∃ t', pushAutoMip t (autoMip text name stream obj) = .ok t' ∧ t'.headers = s.headers := by
      obtain h | h := pushAutoMip_cases t text name stream hlevel
      · rw [← hheaders, h.1] at hsome
        cases hsome
      · exact hheaders ▸ h.2
    have hbefore : ∃ t, autoMipBefore s text obj = .ok t ∧ t.headers = s.headers := by
      obtain ⟨t, ht, hheaders⟩ := hpush rfl ("auto-generated MIP before '" ++ text ++ "'")
        (oamAutomipName s.stream obj.autoMipLevel obj.name false) s.stream
      exact ⟨{ t with actions := confactionSwapWithNext t.actions },
        by simp only [autoMipBefore, ht]; rfl, hheaders⟩
    cases c with
    | branch =>
      obtain ⟨t, ht, -⟩ := hpush rfl _ _ _
      exact ⟨t, ht⟩
    | repl =>
      obtain ⟨t, ht, -⟩ := hbefore
      exact ⟨t, ht⟩
    | elim pipename =>
      -- the second point finds the headers of the first
      obtain ⟨t, ht, hheaders⟩ := hbefore
      obtain ⟨t', ht', -⟩ := hpush hheaders ("auto-generated MIP after '" ++ text ++ "'")
        (oamAutomipName pipename obj.autoMipLevel obj.name true) pipename
      exact ⟨t', by simp only [AutoMipCall.run, autoMipElim, ht]; exact ht'⟩

/-- The state in front of a line for packets with one header. -/
def autoMipState (id : ProtocolID) : StageState :=
  ⟨"s", [], [⟨0, 0, ⟨"h", id, []⟩⟩], false, false, true, false, none, [], [], 1, []⟩

theorem autoMip_softly_ipv6 :
    FailsSoftly (autoMipState .ipv6)
      (AutoMipCall.run .repl (autoMipState .ipv6) "replicate" ⟨"r", .repl, 3⟩) :=
  (autoMip_failsSoftly_iff .repl _ _ ⟨"r", .repl, 3⟩ (by decide)).mpr rfl

/-- Packets with an IPv4 header: in none of the places. -/
theorem autoMip_not_softly :
    ¬ FailsSoftly (autoMipState .ipv4)
        (AutoMipCall.run (.elim "p") (autoMipState .ipv4) "eliminate" ⟨"e", .seqrec, 3⟩) ∧
      ¬ FailsSoftly (autoMipState .ipv4)
        (AutoMipCall.run .repl (autoMipState .ipv4) "replicate" ⟨"r", .repl, 3⟩) ∧
      ¬ FailsSoftly (autoMipState .ipv4)
        (AutoMipCall.run .branch (autoMipState .ipv4) "replicate" ⟨"r", .repl, 3⟩) := by
  refine ⟨?_, ?_, ?_⟩ <;> exact fun ⟨_, hcall, _⟩ => nomatch hcall

end Dnt
