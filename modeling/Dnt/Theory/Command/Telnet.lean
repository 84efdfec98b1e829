import Dnt.Core.OamCommand

/-!
# Telnet Commands in the Buffer

A line may begin with telnet commands. They are taken out of the buffer by moving the rest
to its front, and for an interrupt the rest is moved back by four octets to make room for
a command to stop. But the buffer has 255 octets, and a text that came with an interrupt
may be too long for the four.

## Main definitions

* `Buffered`: A text is at the front of the buffer, and a zero behind it.
* `TelnetHandled`: Nothing outside is touched, and the buffer holds what
  `handleTelnetCommand` makes of the text.

## Theorems

* `telnetHandled_iff`: This is so just if the text has room for the four octets where they
  are needed.
-/

namespace Dnt

open Memory (load store)

variable {m : Nat → UInt8} {n : Nat}

/-- The text is at the front of the buffer, and a zero behind it. -/
def Buffered (m : Nat → UInt8) (text : List UInt8) : Prop :=
  load m 0 (text.length + 1) = text ++ [0]

/-- The positions that are touched are in the buffer, and it holds the text without the
commands in the end. -/
structure TelnetHandled (m : Nat → UInt8) (chunk : List UInt8) : Prop where
  inside : ∀ i ∈ (handleTelnetBuffer m chunk.length).touched, i ≤ 254
  length : (handleTelnetBuffer m chunk.length).n = (handleTelnetCommand chunk).length
  contents : Buffered (handleTelnetBuffer m chunk.length).octets (handleTelnetCommand chunk)

open List

theorem load_cons (m : Nat → UInt8) (src n : Nat) :
    load m src (n + 1) = m src :: load m (src + 1) n := by
  rw [Nat.add_comm, Memory.load_add]
  rfl

theorem skipTelnetCommands_of_ne {c : UInt8} (hc : c ≠ telnetIac) (rest : List UInt8) :
    skipTelnetCommands (c :: rest) = (false, c :: rest) := by
  match rest with
  | [] => rw [skipTelnetCommands, if_neg hc]
  | [d] => rw [skipTelnetCommands, if_pos hc]
  | d :: e :: rest => rw [skipTelnetCommands, if_pos hc]

/-- What one command does to the text from `k` on. -/
theorem telnetCommand_spec {k : Nat} (hk : k < n) (hiac : m k = telnetIac) :
    (telnetCommand m n k).k ≤ n ∧ (∀ i ∈ (telnetCommand m n k).seen, i ≤ n) ∧
      skipTelnetCommands (load m k (n - k)) =
        let rest := skipTelnetCommands
          (load m (telnetCommand m n k).k (n - (telnetCommand m n k).k))
        ((telnetCommand m n k).stop || rest.1, rest.2) := by
  have hload : load m k (n - k) = telnetIac :: load m (k + 1) (n - (k + 1)) := by
    rw [← hiac, ← load_cons]
    congr 1
    omega
  rw [hload]
  unfold telnetCommand
  by_cases hone : n > k + 1
  · have hload₁ : load m (k + 1) (n - (k + 1)) = m (k + 1) :: load m (k + 2) (n - (k + 2)) := by
      rw [← load_cons]
      congr 1
      omega
    rw [if_pos hone, hload₁]
    by_cases htwo : n > k + 2
    · have hload₂ : load m (k + 2) (n - (k + 2)) = m (k + 2) :: load m (k + 3) (n - (k + 3)) := by
        rw [← load_cons]
        congr 1
        omega
      rw [hload₂, if_pos htwo, skipTelnetCommands, if_neg (not_not.mpr rfl)]
      split_ifs with hinterrupt hdo <;> simp [hload₂] <;> omega
    · -- the text ends with this command
      obtain rfl : n = k + 2 := by omega
      have hnil : load m (k + 2) 0 = [] := rfl
      rw [Nat.sub_self, hnil, if_neg htwo, skipTelnetCommands, if_neg (not_not.mpr rfl)]
      split_ifs with hinterrupt hdo <;> simp [hnil, skipTelnetCommands, hinterrupt]
  · obtain rfl : n = k + 1 := by omega
    have hnil : load m (k + 1) 0 = [] := rfl
    rw [if_neg hone, Nat.sub_self, hnil]
    simp [skipTelnetCommands]

theorem telnetScan_spec {k : Nat} (hk : k < n) :
    (telnetScan m n k).k ≤ n ∧ (∀ i ∈ (telnetScan m n k).seen, i ≤ n) ∧
      skipTelnetCommands (load m k (n - k)) =
        ((telnetScan m n k).stop, load m (telnetScan m n k).k (n - (telnetScan m n k).k)) := by
  fun_induction telnetScan m n k with
  | case1 k hiac hend =>
    obtain ⟨hle, hseen, hskip⟩ := telnetCommand_spec hk hiac
    obtain heq : (telnetCommand m n k).k = n := Nat.le_antisymm hle hend
    refine ⟨hle, hseen, hskip.trans ?_⟩
    rw [heq, Nat.sub_self]
    simp [load, skipTelnetCommands]
  | case2 k hiac hend first rest ih =>
    obtain ⟨-, hseen, hskip⟩ := telnetCommand_spec hk hiac
    obtain ⟨hle, hseen', hskip'⟩ := ih (Nat.lt_of_not_le hend)
    refine ⟨hle, fun i hi => ?_, hskip.trans ?_⟩
    · exact (mem_append.mp hi).elim (hseen i) (hseen' i)
    · simp only [first] at hskip' ⊢
      rw [hskip']
  | case3 k hno =>
    refine ⟨Nat.le_of_lt hk, by simp; omega, ?_⟩
    have hload : load m k (n - k) = m k :: load m (k + 1) (n - (k + 1)) := by
      rw [← load_cons]
      congr 1
      omega
    rw [hload, skipTelnetCommands_of_ne hno]

/-- The rest of the text is behind the commands, and has its zero. -/
theorem load_telnetScan {chunk : List UInt8} (hm : Buffered m chunk) (hchunk : chunk ≠ []) :
    load m (telnetScan m chunk.length 0).k (chunk.length - (telnetScan m chunk.length 0).k + 1) =
        (skipTelnetCommands chunk).2 ++ [0] ∧
      (telnetScan m chunk.length 0).stop = (skipTelnetCommands chunk).1 ∧
      chunk.length - (telnetScan m chunk.length 0).k = (skipTelnetCommands chunk).2.length := by
  have hpos : 0 < chunk.length := length_pos_iff.mpr hchunk
  obtain ⟨hle, -, hskip⟩ := telnetScan_spec (m := m) hpos
  have htext : load m 0 chunk.length = chunk ∧ m chunk.length = 0 := by
    rw [Buffered, Memory.load_succ, Nat.zero_add] at hm
    exact ⟨append_inj_left hm (Memory.length_load _ _ _),
      singleton_inj.mp (append_inj_right hm (Memory.length_load _ _ _))⟩
  rw [Nat.sub_zero, htext.1] at hskip
  rw [hskip, Memory.load_succ, Memory.length_load, Nat.add_sub_cancel' hle, htext.2]
  exact ⟨rfl, rfl, rfl⟩

theorem buffered_store (m : Nat → UInt8) (text : List UInt8) :
    Buffered (store m ⟨0, text ++ [0]⟩) text := by
  have h := Memory.load_store_self m 0 (text ++ [0])
  rwa [length_append] at h

/-- Moving a text back makes room for four octets in front of it. -/
theorem buffered_stop {text : List UInt8} (hm : Buffered m text) :
    Buffered (store (store m ⟨4, load m 0 (text.length + 1)⟩) ⟨0, asciiOctets "stop"⟩)
      (asciiOctets "stop" ++ text) := by
  have hlen : (asciiOctets "stop" ++ text).length + 1 = 4 + (text ++ [0]).length := by
    rw [length_append, length_append, length_singleton, ← Nat.add_assoc]
    rfl
  rw [Buffered, hlen, hm, Memory.load_add, Nat.zero_add, append_assoc]
  refine congrArg₂ (· ++ ·) (Memory.load_store_self _ 0 (asciiOctets "stop")) ?_
  refine Eq.trans (Memory.load_congr _ _ _ _ fun k _ => ?_) (Memory.load_store_self m 4 _)
  refine Memory.store_apply_of_not_covers _ _ _ fun hno => ?_
  have : 4 + k < 0 + 4 := hno.2
  omega

theorem moveForward_spec {chunk : List UInt8} (hm : Buffered m chunk) (hchunk : chunk ≠ []) :
    let moved := moveForward m chunk.length (telnetScan m chunk.length 0)
    Buffered moved.octets (skipTelnetCommands chunk).2 ∧
      moved.n = (skipTelnetCommands chunk).2.length ∧ moved.n ≤ chunk.length ∧
      ∀ i ∈ moved.touched, i ≤ chunk.length := by
  obtain ⟨hle, hseen, -⟩ := telnetScan_spec (m := m) (length_pos_iff.mpr hchunk)
  obtain ⟨hload, -, hrest⟩ := load_telnetScan hm hchunk
  unfold moveForward
  by_cases hk : (telnetScan m chunk.length 0).k > 0
  · rw [if_pos hk, hload]
    refine ⟨buffered_store m _, hrest, Nat.sub_le _ _, fun i hi => ?_⟩
    simp only [mem_append, mem_range'_1] at hi
    rcases hi with (hi | hi) | hi
    · exact hseen i hi
    · omega
    · omega
  · rw [if_neg hk]
    obtain hzero : (telnetScan m chunk.length 0).k = 0 := Nat.eq_zero_of_not_pos hk
    rw [hzero, Nat.sub_zero] at hload hrest
    rw [hrest] at hload
    exact ⟨hload, hrest, Nat.le_refl _, hseen⟩

/-- Whatever else is in the buffer, taking out the commands works exactly if a text that came
with an interrupt is not too long. -/
theorem telnetHandled_iff (m : Nat → UInt8) (chunk : List UInt8)
    (hlen : 1 ≤ chunk.length ∧ chunk.length ≤ 254) (hm : Buffered m chunk) :
    TelnetHandled m chunk ↔
      ((skipTelnetCommands chunk).1 = true → (skipTelnetCommands chunk).2.length ≤ 250) := by
  have hchunk : chunk ≠ [] := ne_nil_of_length_pos hlen.1
  obtain ⟨-, hstop, -⟩ := load_telnetScan hm hchunk
  obtain ⟨hmoved, hn, hle, htouched⟩ := moveForward_spec hm hchunk
  cases hinterrupt : (skipTelnetCommands chunk).1 with
  | false =>
    have hbuffer : handleTelnetBuffer m chunk.length =
        moveForward m chunk.length (telnetScan m chunk.length 0) := by
      rw [handleTelnetBuffer, hstop, hinterrupt, if_neg Bool.false_ne_true]
    have hcommand : handleTelnetCommand chunk = (skipTelnetCommands chunk).2 := by
      simp only [handleTelnetCommand, hinterrupt, if_neg Bool.false_ne_true]
    refine iff_of_true ⟨?_, ?_, ?_⟩ nofun
    · rw [hbuffer]
      exact fun i hi => Nat.le_trans (htouched i hi) hlen.2
    · rw [hbuffer, hcommand, hn]
    · rw [hbuffer, hcommand]
      exact hmoved
  | true =>
    have hcommand : handleTelnetCommand chunk =
        asciiOctets "stop" ++ (skipTelnetCommands chunk).2 := by
      simp only [handleTelnetCommand, hinterrupt, if_true]
    have hall : (∀ i ∈ (handleTelnetBuffer m chunk.length).touched, i ≤ 254) ↔
        (skipTelnetCommands chunk).2.length ≤ 250 := by
      rw [handleTelnetBuffer, hstop, hinterrupt, if_pos rfl, hn]
      simp only [mem_append, mem_range'_1]
      constructor
      · intro h
        -- the zero is the last to be moved back
        have := h (4 + (skipTelnetCommands chunk).2.length) (.inl (.inr (by omega)))
        omega
      · rintro h i (((hi | hi) | hi) | hi)
        · exact Nat.le_trans (htouched i hi) hlen.2
        all_goals omega
    rw [imp_iff_right rfl, ← hall]
    refine ⟨TelnetHandled.inside, fun hinside => ⟨hinside, ?_, ?_⟩⟩
    · rw [handleTelnetBuffer, hstop, hinterrupt, if_pos rfl, hn, hcommand, length_append]
      exact Nat.add_comm _ 4
    · rw [handleTelnetBuffer, hstop, hinterrupt, if_pos rfl, hn, hcommand]
      exact buffered_stop hmoved

/-- An interrupt, and the word `q` and a newline. -/
theorem telnetHandled_interrupt :
    Buffered (fun i => [0xff, 0xf4, 0x71, 0x0a].getD i 0) [0xff, 0xf4, 0x71, 0x0a] ∧
      TelnetHandled (fun i => [0xff, 0xf4, 0x71, 0x0a].getD i 0) [0xff, 0xf4, 0x71, 0x0a] := by
  have hm : Buffered (fun i => [0xff, 0xf4, 0x71, 0x0a].getD i 0) [0xff, 0xf4, 0x71, 0x0a] := rfl
  exact ⟨hm, (telnetHandled_iff _ _ (by decide) hm).mpr (by decide)⟩

/-- An interrupt in front of 252 letters: the last of them and the zero are moved out of the
buffer. -/
theorem interrupt_overruns :
    ¬ TelnetHandled (fun i => (telnetIac :: telnetInterrupt :: List.replicate 252 0x61).getD i 0)
      (telnetIac :: telnetInterrupt :: List.replicate 252 0x61) := by
  intro h
  exact absurd (h.inside 256 (by decide +kernel)) (by decide)

end Dnt
