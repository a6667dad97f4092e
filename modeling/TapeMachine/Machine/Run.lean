import TapeMachine.Machine.Basic
/-!
# Running a machine

One attempt executes the instruction at the program counter, or finds that it cannot: an input
instruction without input, or an output instruction with a full output queue. The machine is then
as it was before the attempt, but for its run state. Running, running up to an offset and stepping
differ only in when they stop by themselves. A program need not come to an end, so all of them
take the number of instructions after which they give up without an answer.
-/

set_option autoImplicit false
set_option relaxedAutoImplicit false

namespace TapeMachine

inductive RunError where
  | unprepared
  | finished
  /-- The output instruction at an offset found the output queue full. -/
  | outputFull (pc : Nat) (full : Buffer.Full)
  deriving DecidableEq

def RunError.report : RunError → Report
  | .unprepared => (Report.ofCause "invalid state").within "no program"
  | .finished => (Report.ofCause "invalid state").within "program halted"
  | .outputFull pc full => full.report.within s!"output @pc={pc}"

/-- The outcome of one attempt, with the machine after it. -/
inductive Attempt where
  | executed (machine : Machine)
  | starved (machine : Machine)
  /-- The output queue was full; nothing was done. -/
  | refused (machine : Machine)

/-- When to stop before an instruction. -/
inductive Bound where
  | unbounded
  /-- Once the program counter has passed an offset. -/
  | past (offset : Int)
  | after (instructions : Nat)

def Bound.reached : Bound → Nat → Nat → Bool
  | .unbounded, _, _ => false
  | .past offset, pc, _ => offset < pc
  | .after instructions, _, executed => instructions ≤ executed

/-- Why a run stopped, with the machine after it. -/
inductive Stop where
  | halted (machine : Machine)
  | starved (machine : Machine)
  | refused (machine : Machine)
  | bounded (machine : Machine)

/-- The machine after a call and the error of the call, if any. -/
structure Outcome where
  machine : Machine
  error : Option RunError

namespace Machine

def isWaiting (m : Machine) : Bool := m.state == .waiting

def goto (m : Machine) (pc : Nat) : Machine := { m with pc := pc, count := m.count + 1 }

/-- Where the loop test of the bracket at an offset leads: into the loop if the current cell is
not 0, and past its end otherwise. -/
def loopTarget (m : Machine) (offset : Nat) : Nat :=
  if m.tape.read = 0 then m.jumps.partner offset + 1 else offset + 1

def execute (m : Machine) : Option Instruction → Attempt
  | none => .executed (m.goto (m.pc + 1))
  | some .increment => .executed ({ m with tape := m.tape.increment }.goto (m.pc + 1))
  | some .decrement => .executed ({ m with tape := m.tape.decrement }.goto (m.pc + 1))
  | some .right => .executed ({ m with tape := m.tape.moveRight }.goto (m.pc + 1))
  | some .left => .executed ({ m with tape := m.tape.moveLeft }.goto (m.pc + 1))
  | some .loopStart => .executed (m.goto (m.loopTarget m.pc))
  | some .loopEnd => .executed (m.goto (m.loopTarget (m.jumps.partner m.pc)))
  | some .input =>
    match m.input.next? with
    | none => .starved { m with state := .waiting }
    | some (c, rest) =>
      .executed ({ m with tape := m.tape.write c, input := rest, state := .running }.goto (m.pc + 1))
  | some .output =>
    if h : m.output.length < m.output.capacity then
      .executed ({ m with output := m.output.push m.tape.read h }.goto (m.pc + 1))
    else .refused m

/-- Runs until the program ends, an instruction cannot be executed, or the bound is reached.
`executed` counts the instructions of this run. `none` if `fuel` instructions did not suffice. -/
def exec (bound : Bound) : (fuel executed : Nat) → Machine → Option Stop
  | 0, _, _ => none
  | fuel + 1, executed, m =>
    if h : m.pc < m.program.size then
      if bound.reached m.pc executed then some (.bounded m)
      else
        match m.execute (Instruction.ofByte? m.program[m.pc]) with
        | .executed m => exec bound fuel (executed + 1) m
        | .starved m => some (.starved m)
        | .refused m => some (.refused m)
    else some (.halted { m with state := .halted })

def runWithin (bound : Bound) (fuel : Nat) (m : Machine) : Option Outcome :=
  if !m.prepared then some ⟨m, some .unprepared⟩
  else if m.state = .halted then some ⟨m, some .finished⟩
  else
    match exec bound fuel 0 m with
    | none => none
    | some (.halted m) => some ⟨m, none⟩
    | some (.starved m) => some ⟨m, none⟩
    | some (.bounded m) => some ⟨m, none⟩
    | some (.refused m) =>
      let error := RunError.outputFull m.pc (m.output.full 1)
      some ⟨m, some error⟩

def run (fuel : Nat) (m : Machine) : Option Outcome := m.runWithin .unbounded fuel

/-- Runs until the program counter has passed an offset. -/
def runUpTo (fuel : Nat) (offset : Int) (m : Machine) : Option Outcome :=
  m.runWithin (.past offset) fuel

def step (m : Machine) : Option Outcome := m.runWithin (.after 1) 2

/-- Lets a waiting machine go on once there is input. -/
def resume (m : Machine) : Machine :=
  if m.state = .waiting && m.input.hasUnread then { m with state := .running } else m

/-- Appends all bytes to the input, or none if they do not all fit. -/
def appendInput (m : Machine) (bytes : List UInt8) : Except Buffer.Full Machine :=
  match m.input.appendAll bytes with
  | .ok input => .ok { m with input := input }.resume
  | .error full => .error full

/-- Appends as many bytes to the input as fit. Answers the machine, the number of bytes appended
and the refusal of the rest, if any. -/
def writeInput (m : Machine) (bytes : List UInt8) : Machine × Nat × Option Buffer.Full :=
  match m.input.write bytes with
  | (input, accepted, refusal) => ({ m with input := input }.resume, accepted, refusal)

def nextOutput? (m : Machine) : Option (UInt8 × Machine) :=
  match m.output.next? with
  | some (c, output) => some (c, { m with output := output })
  | none => none

def drainOutput (m : Machine) : List UInt8 × Machine :=
  match m.output.drain with
  | (bytes, output) => (bytes, { m with output := output })

end Machine

def Buffer.Full.inputReport (f : Buffer.Full) : Report := f.report.within "input"

end TapeMachine
