import Dnt.Core.SeqRecov

/-!
# Sequence Generation

`seq_gen.c` numbers the packets of a stream. With the initial number space in use, a
restarted generator first counts from the configured start up to the top of the
sixteen bits, its packets carrying the INIT flag, and then changes over to the
regular space. The first three packets after a restart carry the RESET flag.

## Main definitions

* `SequenceGenerator`, `sequenceGeneration`: A generator, and its next word. The packet
  numbered `0` at the changeover is sent by the branch of the initial space.
* `sequenceWord`: A number with its flags.

## Theorems

* `sequenceWord_mod`, `sequenceWord_testBit_reset`, `sequenceWord_testBit_init`:
  Number and flags can be read back.
-/

namespace Dnt

variable {seq : Nat}

def frerSeqGenResetFlagCount : Nat := 3

structure SequenceGenerator where
  useResetFlag : Bool
  useInitFlag : Bool
  initSeqStart : Nat
  genSeqNum : Nat
  initGenSeqNum : Nat
  resetFlag : Bool
  useInitSeqSpace : Bool
  resets : Nat
  deriving DecidableEq, Repr

/-- `seq | FRER_RESET_FLAG * reset | FRER_INIT_FLAG * init`. -/
def sequenceWord (seq : Nat) (reset init : Bool) : Nat :=
  seq ||| 2 ^ frerResetFlagBit * reset.toNat ||| 2 ^ frerInitFlagBit * init.toNat

/-- The sequence word for the next packet. The flags are those after the
update. -/
def sequenceGeneration (gen : SequenceGenerator) : Nat × SequenceGenerator :=
  if gen.useInitSeqSpace = true then
    let seq := gen.initGenSeqNum % 65536
    let gen :=
      if gen.initGenSeqNum > 65535 then
        -- this packet has number 0 and is the first regular one
        { gen with genSeqNum := 1, useInitSeqSpace := false, initGenSeqNum := gen.initSeqStart }
      else
        { gen with
          initGenSeqNum := gen.initGenSeqNum + 1
          resetFlag :=
            if gen.initGenSeqNum + 1 > (gen.initSeqStart + frerSeqGenResetFlagCount) % 2 ^ 32
            then false else gen.resetFlag }
    (sequenceWord seq gen.resetFlag gen.useInitSeqSpace, gen)
  else
    let seq := gen.genSeqNum % 65536
    let gen :=
      -- the flag stays as it is when the numbers wrap
      if gen.genSeqNum ≥ 65535 then { gen with genSeqNum := 0 }
      else
        { gen with
          genSeqNum := gen.genSeqNum + 1
          resetFlag :=
            if gen.genSeqNum + 1 > frerSeqGenResetFlagCount then false else gen.resetFlag }
    (sequenceWord seq gen.resetFlag gen.useInitSeqSpace, gen)

def sequenceGenerationReset (gen : SequenceGenerator) : SequenceGenerator :=
  { gen with
    resetFlag := gen.useResetFlag
    useInitSeqSpace := gen.useInitFlag
    genSeqNum := 0
    initGenSeqNum := gen.initSeqStart
    resets := (gen.resets + 1) % 2 ^ 32 }

def newSeqGen (useResetFlag useInitFlag : Bool) (initSeqStart : Nat) : SequenceGenerator :=
  { useResetFlag := useResetFlag
    useInitFlag := useInitFlag
    initSeqStart := initSeqStart
    genSeqNum := 0
    initGenSeqNum := initSeqStart
    resetFlag := useResetFlag
    useInitSeqSpace := useInitFlag
    resets := 0 }

/-- What can happen to a generator: a packet is numbered, or an operator
restarts it. -/
inductive GeneratorEvent where
  | packet
  | reset
  deriving DecidableEq, Repr

/-- One event. The output is the sequence word of the packet, if any. -/
def generatorStep (gen : SequenceGenerator) : GeneratorEvent → SequenceGenerator × Option Nat
  | .packet => ((sequenceGeneration gen).2, some (sequenceGeneration gen).1)
  | .reset => (sequenceGenerationReset gen, none)

def generatedWords (gen : SequenceGenerator) (evs : List GeneratorEvent) : List Nat :=
  (Mealy.outputs generatorStep gen evs).reduceOption

theorem sequenceWord_mod (reset init : Bool) (h : seq < 65536) :
    sequenceWord seq reset init % 65536 = seq := by
  rw [sequenceWord, show (65536 : Nat) = 2 ^ 16 by decide, Nat.or_mod_two_pow, Nat.or_mod_two_pow]
  cases reset <;> cases init <;>
    simp [frerResetFlagBit, frerInitFlagBit, Nat.mod_eq_of_lt h]

theorem sequenceWord_testBit_reset (reset init : Bool) (h : seq < 65536) :
    (sequenceWord seq reset init).testBit frerResetFlagBit = reset := by
  -- the number does not reach up to the flags
  have hseq : seq.testBit 26 = false := Nat.testBit_lt_two_pow (by omega)
  simp only [sequenceWord, frerResetFlagBit, frerInitFlagBit, Nat.testBit_or, hseq]
  cases reset <;> cases init <;> decide

theorem sequenceWord_testBit_init (reset init : Bool) (h : seq < 65536) :
    (sequenceWord seq reset init).testBit frerInitFlagBit = init := by
  have hseq : seq.testBit 25 = false := Nat.testBit_lt_two_pow (by omega)
  simp only [sequenceWord, frerResetFlagBit, frerInitFlagBit, Nat.testBit_or, hseq]
  cases reset <;> cases init <;> decide

end Dnt
