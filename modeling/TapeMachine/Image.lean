import TapeMachine.Machine.Basic
/-!
# Images

An image is a snapshot of a machine: program, registers, tape and unread queue contents. Its
numbers are signed 64 bit words and its byte fields may be absent, because an image can come from
outside; restoring one checks that it is consistent.
-/

set_option autoImplicit false
set_option relaxedAutoImplicit false

namespace TapeMachine

/-- A snapshot of a machine. -/
structure Image where
  program : Option (List UInt8)
  pc : Int64
  /-- The number of the run state. -/
  state : Int64
  pointer : Int64
  cells : Option (List UInt8)
  input : Option (List UInt8)
  output : Option (List UInt8)
  inputSize : Int64
  outputSize : Int64
  count : Int64
  deriving DecidableEq

namespace Image

def blank : Image := ⟨none, 0, 0, 0, none, none, none, 0, 0, 0⟩

/-- Bytes as a field: no bytes at all is an absent field. -/
def field (bytes : List UInt8) : Option (List UInt8) := if bytes.isEmpty then none else some bytes

def sizes (img : Image) : List (Part × Int) :=
  [(.cells, (img.cells.getD []).length), (.input, img.inputSize.toInt),
    (.output, img.outputSize.toInt)]

end Image

inductive RestoreError where
  /-- The image has another number of cells than the machine. -/
  | cellCount (image machine : Nat)
  | pointerRange (pointer : Int)
  | pcRange (pc : Int)
  | runningAtEnd
  /-- The state is waiting but there is no input instruction. -/
  | notOnInput (pc : Int)
  | waitingWithInput (unread : Nat)
  | haltedBeforeEnd (pc : Int) (size : Nat)
  | badState (state : Int)
  | inputFull (unread : Nat)
  | outputFull (unread : Nat)
  | mismatch (error : BracketError)
  deriving DecidableEq

def RestoreError.report : RestoreError → Report
  | .cellCount image machine =>
    .ofCause s!"restore: image has {image} cells, tape has {machine}"
  | .pointerRange pointer => .ofCause s!"restore: tape pointer {pointer} out of range"
  | .pcRange pc => .ofCause s!"restore: PC {pc} out of range"
  | .runningAtEnd => .ofCause "restore: running at end of program"
  | .notOnInput pc => .ofCause s!"restore: waiting at PC {pc}, not on an input instruction"
  | .waitingWithInput unread => .ofCause s!"restore: waiting with {unread} bytes of unread input"
  | .haltedBeforeEnd pc size => .ofCause s!"restore: halted at PC {pc} of {size}"
  | .badState state => .ofCause s!"restore: bad state {state}"
  | .inputFull unread =>
    (Report.ofCause "capacity exceeded").within s!"restore: {unread} bytes of input"
  | .outputFull unread =>
    (Report.ofCause "capacity exceeded").within s!"restore: {unread} bytes of output"
  | .mismatch error => (Report.ofCause error.message).within "restore"

namespace Image

/-- The run state of an image, if it agrees with the program counter: a running image is before
the end of its program, a waiting one on an input instruction with no unread input, a halted one
at the end. -/
def runState (img : Image) (program : List UInt8) (pc : Nat) : Except RestoreError RunState :=
  match RunState.ofInt? img.state.toInt with
  | some .running => if pc = program.length then .error .runningAtEnd else .ok .running
  | some .waiting =>
    if program[pc]? = some Instruction.input.toByte then
      match (img.input.getD []).length with
      | 0 => .ok .waiting
      | unread => .error (.waitingWithInput unread)
    else .error (.notOnInput pc)
  | some .halted =>
    if pc = program.length then .ok .halted else .error (.haltedBeforeEnd pc program.length)
  | none => .error (.badState img.state.toInt)

end Image

namespace Machine

/-- A snapshot of the machine; `none` if no program has been loaded. -/
def image? (m : Machine) : Option Image :=
  if m.prepared then
    some {
      program := Image.field m.program.toList
      pc := Int64.ofNat m.pc
      state := Int64.ofNat m.state.toNat
      pointer := Int64.ofNat m.tape.pointer
      cells := Image.field m.tape.cells.toList
      input := Image.field m.input.unread
      output := Image.field m.output.unread
      inputSize := Int64.ofNat m.input.capacity
      outputSize := Int64.ofNat m.output.capacity
      count := m.count }
  else none

/-- Replaces the state of the machine by an image. The image must have as many cells as the
machine and be consistent; otherwise the machine is left as it is. -/
def restore (m : Machine) (img : Image) : Except RestoreError Machine :=
  let program := img.program.getD []
  let cells := img.cells.getD []
  let input := img.input.getD []
  let output := img.output.getD []
  let pointer := img.pointer.toInt
  let pc := img.pc.toInt
  if cells.length ≠ m.tape.size then .error (.cellCount cells.length m.tape.size)
  else
    match if pointer < 0 then none else Tape.ofCells? cells pointer.toNat with
    | none => .error (.pointerRange pointer)
    | some tape =>
      if pc < 0 || program.length < pc then .error (.pcRange pc)
      else
        match img.runState program pc.toNat with
        | .error e => .error e
        | .ok state =>
          if m.input.capacity < input.length then .error (.inputFull input.length)
          else if m.output.capacity < output.length then .error (.outputFull output.length)
          else
            match link program with
            | .error e => .error (.mismatch e)
            | .ok jumps =>
              let fresh := m.install program jumps
              .ok { fresh with
                pc := pc.toNat
                state := state
                count := img.count
                tape := tape
                input := m.input.refill input
                output := m.output.refill output }

end Machine

end TapeMachine
