import TapeMachine.Machine.Basic
import TapeMachine.Text.Decimal
import TapeMachine.Stream.Sink
/-!
# Dumps

A dump shows the registers, the tape up to its last non-zero cell and the unread output of a
machine, as decimal numbers separated by spaces. The registers are preceded by a file separator
character, the other two sections by a group separator character.
-/

set_option autoImplicit false
set_option relaxedAutoImplicit false

namespace TapeMachine.Dump

def fileSeparator : UInt8 := 0x1C

def groupSeparator : UInt8 := 0x1D

/-- Writes numbers separated by spaces, one at a time, with `lead` before the first. Answers the failed
write at which it stopped, if any. -/
def writeNumbers (lead : List UInt8) : List Nat → FailStop → FailStop × Option WriteFault
  | [], w =>
    let w := (w.write lead).1
    (w, w.failed)
  | [n], w =>
    let w := (w.write (lead ++ Text.decimal n)).1
    (w, w.failed)
  | n :: rest, w =>
    let w := (w.write (lead ++ Text.decimal n ++ [32])).1
    match w.failed with
    | some fault => (w, some fault)
    | none => writeNumbers [] rest w

/-- The cells up to the last one that is not 0. -/
def trimmed (cells : List UInt8) : List UInt8 := (cells.reverse.dropWhile (· = 0)).reverse

/-- Writes the dump of a machine. The answer is that of the last section, whatever became of the
others. -/
def write (m : Machine) (w : Writer) : FailStop × Option WriteFault :=
  let w := FailStop.wrap w
  let w := (writeNumbers [fileSeparator] [m.pc, m.state.toNat, m.tape.pointer] w).1
  let w := (writeNumbers [groupSeparator] ((trimmed m.tape.cells.toList).map UInt8.toNat) w).1
  writeNumbers [groupSeparator] (m.output.unread.map UInt8.toNat) w

end TapeMachine.Dump
