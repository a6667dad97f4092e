import TapeMachine.Report
import TapeMachine.Tape
import TapeMachine.Buffer
import TapeMachine.Brackets
/-!
# The machine

A machine holds a tape, an input queue and an output queue, all of sizes fixed when it is created,
and a program with its jump table, program counter and run state. Loading a program erases
whatever the machine held before.
-/

set_option autoImplicit false
set_option relaxedAutoImplicit false

namespace TapeMachine

inductive RunState where
  | running
  /-- It stopped at an input instruction without input. -/
  | waiting
  | halted
  deriving DecidableEq, Repr

namespace RunState

def toNat : RunState → Nat
  | .running => 0
  | .waiting => 1
  | .halted => 2

def ofInt? (n : Int) : Option RunState :=
  if n = 0 then some .running
  else if n = 1 then some .waiting
  else if n = 2 then some .halted
  else none

def name : RunState → String
  | .running => "running"
  | .waiting => "waiting"
  | .halted => "halted"

def nameOfInt (n : Int) : String :=
  match ofInt? n with
  | some s => s.name
  | none => "unknown"

end RunState

def Buffer.Full.report (f : Buffer.Full) : Report :=
  (Report.ofCause "capacity exceeded").within
    s!"{f.capacity} bytes buffer full, {f.unread} bytes unread, cannot append {f.refused}"

/-- A machine with its program. -/
structure Machine where
  /-- The bytes of the program; empty if none has been loaded. -/
  program : Array UInt8
  jumps : JumpTable
  pc : Nat
  state : RunState
  prepared : Bool
  tape : Tape
  input : Buffer
  output : Buffer
  /-- The number of instructions executed, in a signed 64 bit word. -/
  count : Int64
  deriving DecidableEq

inductive Part where
  | cells
  | input
  | output
  deriving DecidableEq, Repr

def Part.name : Part → String
  | .cells => "tape"
  | .input => "input buffer"
  | .output => "output buffer"

/-- A size that a part cannot have. -/
structure SizeError where
  part : Part
  size : Int
  deriving DecidableEq, Repr

def SizeError.report (e : SizeError) : Report :=
  .ofCause s!"invalid {e.part.name} size {e.size}"

/-- The sizes of a machine; all are positive. -/
structure Sizes where
  cells : Nat
  input : Nat
  output : Nat
  cells_pos : 0 < cells
  input_pos : 0 < input
  output_pos : 0 < output
  deriving DecidableEq

namespace Sizes

def standard : Sizes := ⟨32768, 32768, 32768, by decide, by decide, by decide⟩

def set (s : Sizes) (part : Part) (size : Int) : Except SizeError Sizes :=
  if h : 0 < size then
    have pos : 0 < size.toNat := by omega
    match part with
    | .cells => .ok ⟨size.toNat, s.input, s.output, pos, s.input_pos, s.output_pos⟩
    | .input => .ok ⟨s.cells, size.toNat, s.output, s.cells_pos, pos, s.output_pos⟩
    | .output => .ok ⟨s.cells, s.input, size.toNat, s.cells_pos, s.input_pos, pos⟩
  else .error ⟨part, size⟩

/-- Sets sizes in order; the first bad one is the error and the last one of a part counts. -/
def setAll (s : Sizes) : List (Part × Int) → Except SizeError Sizes
  | [] => .ok s
  | (part, size) :: rest =>
    match s.set part size with
    | .ok s => s.setAll rest
    | .error e => .error e

end Sizes

namespace Machine

def ofSizes (s : Sizes) : Machine where
  program := #[]
  jumps := #[]
  pc := 0
  state := .running
  prepared := false
  tape := Tape.blank s.cells s.cells_pos
  input := Buffer.empty s.input
  output := Buffer.empty s.output
  count := 0

/-- A machine without a program, of standard sizes except where others are asked for. -/
def create (sizes : List (Part × Int)) : Except SizeError Machine :=
  match Sizes.standard.setAll sizes with
  | .ok s => .ok (ofSizes s)
  | .error e => .error e

def install (m : Machine) (program : List UInt8) (jumps : JumpTable) : Machine :=
  { m with
    program := program.toArray
    jumps := jumps
    pc := 0
    state := .running
    prepared := true
    count := 0 }

/-- Loads a program: the tape is zeroed and both queues are emptied. A program that does not link
leaves the machine as it is. -/
def prepare (m : Machine) (program : List UInt8) : Except BracketError Machine :=
  match link program with
  | .error e => .error e
  | .ok jumps =>
    let fresh := m.install program jumps
    .ok { fresh with
      tape := m.tape.reset
      input := m.input.reset
      output := m.output.reset }

end Machine

end TapeMachine
