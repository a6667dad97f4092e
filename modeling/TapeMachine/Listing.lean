import TapeMachine.Brackets
import TapeMachine.Text.Utf8
import TapeMachine.Text.Decimal
import TapeMachine.Stream.Sink
/-!
# Listings

The listing of a program has a line for each instruction: its offset right aligned in ten columns,
the first of them always blank, a tab, its name and, for a bracket, the offset of its partner.
Comments are left out.
-/

set_option autoImplicit false
set_option relaxedAutoImplicit false

namespace TapeMachine.Listing

/-- The least offset from `offset` on that holds an instruction, or the size of the program. -/
def nextInstruction (program : Array UInt8) (offset : Nat) : Nat :=
  if h : offset < program.size then
    if Instruction.isInstruction program[offset] then offset
    else nextInstruction program (offset + 1)
  else program.size
termination_by program.size - offset

theorem le_nextInstruction (program : Array UInt8) (offset : Nat) (h : offset ≤ program.size) :
    offset ≤ nextInstruction program offset := by
  fun_induction nextInstruction program offset with
  | case1 => omega
  | case2 offset _ _ ih => have := ih (by omega); omega
  | case3 => omega

/-- The name of the byte at an offset and, for a bracket, the offset of its partner, in the pieces
in which they are written. -/
def describe (c : UInt8) (jumps : JumpTable) (offset : Nat) : List (List UInt8) :=
  let name := Text.bytes (Instruction.nameOfByte c)
  match Instruction.ofByte? c with
  | some .loopStart | some .loopEnd => [name, [32], Text.decimal (jumps.partner offset)]
  | _ => [name]

/-- The offset at the start of a line. A space stands in place of a sign. -/
def offsetColumn (offset : Nat) : List UInt8 := 32 :: Text.alignRight 9 offset ++ [9]

/-- Writes the description of the byte at an offset and finds the instruction after it. `none` if
the offset is outside the program. -/
def writeAt? (program : Array UInt8) (jumps : JumpTable) (offset : Nat) (w : Writer) :
    Option (FailStop × Nat) :=
  if h : offset < program.size then
    some ((FailStop.wrap w).writeAll (describe program[offset] jumps offset),
      nextInstruction program (offset + 1))
  else none

theorem lt_of_writeAt? {program : Array UInt8} {jumps : JumpTable} {offset next : Nat} {w : Writer}
    {w' : FailStop} (described : writeAt? program jumps offset w = some (w', next)) :
    offset < program.size ∧ offset < next := by
  unfold writeAt? at described
  split at described
  case isTrue inside =>
    cases described
    exact ⟨inside, le_nextInstruction program (offset + 1) inside⟩
  case isFalse => cases described

/-- Writes the lines of all instructions from an offset on. Answers the failed write at which it
stopped, if any. -/
def writeLines (program : Array UInt8) (jumps : JumpTable) (offset : Nat) (w : FailStop) :
    FailStop × Option WriteFault :=
  match _described : writeAt? program jumps offset (.failStop (w.write (offsetColumn offset)).1) with
  | none => (w, none)
  | some (line, next) =>
    let w := (line.write [10]).1
    match w.failed with
    | some fault => (w, some fault)
    | none => writeLines program jumps next w
termination_by program.size - offset
decreasing_by
  have := lt_of_writeAt? _described
  omega

/-- Writes the listing of a program. A program that does not link is not listed. -/
def write (program : List UInt8) (w : Writer) : Except BracketError (FailStop × Option WriteFault) :=
  match link program with
  | .error e => .error e
  | .ok jumps =>
    let code := program.toArray
    .ok (writeLines code jumps (nextInstruction code 0) (.wrap w))

end TapeMachine.Listing
