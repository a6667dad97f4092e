/-!
# Instructions

Eight bytes of a program are instructions; every other byte is a comment.
-/

set_option autoImplicit false
set_option relaxedAutoImplicit false

namespace TapeMachine

inductive Instruction where
  | increment
  | decrement
  | right
  | left
  /-- Opens a loop: skips it when the current cell is 0. -/
  | loopStart
  /-- Closes a loop: goes back to the test at its start. -/
  | loopEnd
  | input
  | output
  deriving DecidableEq, Repr

namespace Instruction

/-- The instruction that a byte stands for; `none` for a comment. -/
def ofByte? (c : UInt8) : Option Instruction :=
  if c = 43 then some .increment
  else if c = 45 then some .decrement
  else if c = 62 then some .right
  else if c = 60 then some .left
  else if c = 91 then some .loopStart
  else if c = 93 then some .loopEnd
  else if c = 44 then some .input
  else if c = 46 then some .output
  else none

def toByte : Instruction → UInt8
  | .increment => 43
  | .decrement => 45
  | .right => 62
  | .left => 60
  | .loopStart => 91
  | .loopEnd => 93
  | .input => 44
  | .output => 46

def mnemonic : Instruction → String
  | .increment => "inc"
  | .decrement => "dec"
  | .right => "right"
  | .left => "left"
  | .loopStart => "open"
  | .loopEnd => "close"
  | .input => "in"
  | .output => "out"

def isInstruction (c : UInt8) : Bool := (ofByte? c).isSome

/-- The name of a byte in listings; a comment does nothing. -/
def nameOfByte (c : UInt8) : String :=
  match ofByte? c with
  | some i => i.mnemonic
  | none => "nop"

@[simp]
theorem ofByte?_toByte (i : Instruction) : ofByte? i.toByte = some i := by
  cases i <;> rfl

theorem ofByte?_eq_some_iff {byte : UInt8} {i : Instruction} :
    ofByte? byte = some i ↔ byte = i.toByte := by
  constructor
  · intro known
    unfold ofByte? at known
    repeat' split at known
    all_goals cases known <;> assumption
  · rintro rfl
    exact ofByte?_toByte i

theorem toByte_injective {i i' : Instruction} (same : i.toByte = i'.toByte) : i = i' := by
  have known := ofByte?_toByte i
  rw [same, ofByte?_toByte, Option.some.injEq] at known
  exact known.symm

theorem isInstruction_iff {c : UInt8} : isInstruction c = true ↔ ∃ i : Instruction, c = i.toByte := by
  simp only [isInstruction, Option.isSome_iff_exists, ofByte?_eq_some_iff]

end Instruction

end TapeMachine
