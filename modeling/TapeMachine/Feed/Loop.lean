import TapeMachine.Machine.Run
import TapeMachine.Listing
import TapeMachine.Stream.Source
import TapeMachine.Feed.Framing
import TapeMachine.Feed.Token
import TapeMachine.Feed.Journal
/-!
# Feeding a machine

A machine is run until its program ends. Whenever it stops, its output is flushed; whenever it
waits, the next token of the input is framed and appended to its input, in several chunks if it
does not fit. A full output queue is no error here, since it is flushed and the machine run again.
-/

set_option autoImplicit false
set_option relaxedAutoImplicit false

namespace TapeMachine.Feed

def standardMaxToken : Nat := 16 * 1024 * 1024

/-- How a machine is fed. Without settings of its own it is fed lines with their line feeds. -/
structure Feeder where
  split : Split := .lines
  frame : Frame := .lines
  /-- The largest number of bytes held while looking for the end of a token. Only positive numbers are
  limits. -/
  maxToken : Int := 0
  tracing : Bool := false

def Feeder.limit (f : Feeder) : Nat := if f.maxToken ≤ 0 then standardMaxToken else f.maxToken.toNat

theorem Feeder.limit_pos (f : Feeder) : 0 < f.limit := by
  unfold limit
  split
  · decide
  · omega

def Feeder.scan (f : Feeder) (input : List UInt8) : Scan := f.split f.limit input

def Feeder.standard : Feeder := {}

inductive Error where
  | run (error : RunError)
  | trace (fault : WriteFault)
  | output (fault : Fault)
  | tooLong
  | input (fault : Fault)
  | frame (fault : Fault)
  deriving DecidableEq

def Error.report : Error → Report
  | .run error => error.report
  | .trace fault => fault.report.within "trace"
  | .output fault => fault.report.within "output"
  | .tooLong => (Report.ofCause "bufio.Scanner: token too long").within "input"
  | .input fault => fault.report.within "input"
  | .frame fault => fault.report

/-- How feeding came to its end. -/
inductive Ending where
  | halted
  /-- The input ran out while the machine waited for more. -/
  | inputEnded
  | failed (error : Error)
  deriving DecidableEq

/-- Whatever a frame answers in place of bytes ends the feed. -/
def FrameError.ending : FrameError → Ending
  | .inputEnded => .inputEnded
  | .failed fault => .failed (.frame fault)

/-- A feed under way. -/
structure State where
  machine : Machine
  /-- What is left of the current token. -/
  pending : List UInt8
  /-- The input after the current token. -/
  input : Source
  output : Sink
  journal : Journal

def State.start (machine : Machine) (input : Source) (output : Sink) (journal : Journal) : State :=
  ⟨machine, [], input, output, journal⟩

inductive Halt where
  | run (error : RunError)
  | trace (fault : WriteFault)

/-- The machine and the journal after a run, and why it could not go on, if so. -/
structure Ran where
  machine : Machine
  journal : Journal
  halt : Option Halt

/-- The line of the trace for the instruction that a machine is about to execute, in pieces; empty
for a comment and at the end of the program. -/
def traceLine (m : Machine) : List (List UInt8) :=
  match m.program[m.pc]? with
  | none => []
  | some c =>
    if Instruction.isInstruction c then
      [Listing.offsetColumn m.pc] ++ Listing.describe c m.jumps m.pc ++
        [[9, 91] ++ Text.decimal m.tape.pointer ++ [93, 61] ++ Text.decimal m.tape.read.toNat ++ [10]]
    else []

/-- Runs a machine one instruction at a time and traces each before it is executed. -/
def runTraced : (fuel : Nat) → Machine → Journal → Option Ran
  | 0, _, _ => none
  | fuel + 1, m, j =>
    let line := traceLine m
    let (j, failed) := if line.isEmpty then (j, none) else j.trace line
    match failed with
    | some fault => some ⟨m, j, some (.trace fault)⟩
    | none =>
      match m.step with
      | none => none
      | some ⟨m, some error⟩ => some ⟨m, j, some (.run error)⟩
      | some ⟨m, none⟩ => if m.state = .running then runTraced fuel m j else some ⟨m, j, none⟩

def runMachine (tracing : Bool) (fuel : Nat) (m : Machine) (j : Journal) : Option Ran :=
  if tracing then runTraced fuel m j
  else
    match m.run fuel with
    | none => none
    | some ⟨m, error⟩ => some ⟨m, j, error.map .run⟩

def blockSize : Nat := 32768

/-- Moves everything unread to a sink, in blocks. A block that does not fit is lost. -/
def flush (queue : Buffer) (sink : Sink) : Buffer × Sink × Option Fault :=
  if _h : queue.hasUnread then
    let rest := (queue.take blockSize).2
    match sink.write (queue.take blockSize).1 with
    | (sink, _, some fault) => (rest, sink, some fault)
    | (sink, _, none) => flush rest sink
  else (queue, sink, none)
termination_by queue.length
decreasing_by
  rw [Buffer.length_take]
  simp only [Buffer.hasUnread, decide_eq_true_eq] at _h
  simp only [blockSize, Buffer.length]
  omega

def event (m : Machine) (message : String) : Log.Record :=
  ⟨.debug, message, [("pc", .number m.pc), ("instructions", .number m.count.toInt)]⟩

/-- A feed after one turn. -/
inductive Turn where
  | again (state : State)
  | done (state : State) (ending : Ending)

/-- Appends as much of the pending token to the machine's input as fits. No more than the input queue
can hold is offered to it. -/
def give (s : State) : Turn :=
  match s with
  | ⟨m, pending, input, output, journal⟩ =>
    match m.writeInput (pending.take m.input.capacity) with
    | (m, accepted, _) => .again ⟨m, pending.drop accepted, input, output, journal⟩

/-- Takes the next token of the input, for a machine that waits. -/
def fetch (f : Feeder) (s : State) : Turn :=
  let waiting := s.journal.log (event s.machine "waiting for input")
  let ended := waiting.log (event s.machine "end of input")
  match f.scan s.input.bytes with
  | .tooLong => .done { s with journal := waiting } (.failed .tooLong)
  | .failed fault => .done { s with journal := waiting } (.failed (.input fault))
  | .ended =>
    match s.input.fault with
    | some fault => .done { s with journal := waiting } (.failed (.input fault))
    | none => .done { s with journal := ended } .inputEnded
  | .token token rest =>
    let input := { s.input with bytes := rest }
    match f.frame token with
    | .error error => .done { s with input := input, journal := ended } error.ending
    | .ok bytes => give { s with pending := bytes, input := input, journal := waiting }

/-- One turn: runs the machine, flushes its output, and sees what it needs. -/
def turn (f : Feeder) (fuel : Nat) (s : State) : Option Turn :=
  match s with
  | ⟨m, pending, input, output, journal⟩ =>
    match runMachine f.tracing fuel m journal with
    | none => none
    | some ⟨m, journal, halt⟩ =>
      match flush m.output output with
      | (queue, output, fault) =>
        let s : State := ⟨{ m with output := queue }, pending, input, output, journal⟩
        match fault, halt with
        | some fault, _ => some (.done s (.failed (.output fault)))
        | none, some (.trace fault) => some (.done s (.failed (.trace fault)))
        | none, some (.run (.outputFull _ _)) =>
          some (.again { s with journal := journal.log (event s.machine "output buffer full") })
        | none, some (.run error) => some (.done s (.failed (.run error)))
        | none, none =>
          if s.machine.isWaiting then
            if pending.isEmpty then some (fetch f s) else some (give s)
          else some (.done { s with journal := journal.log (event s.machine "halted") } .halted)

/-- Feeds a machine to the end. `none` if `fuel` turns of `fuel` instructions did not suffice. -/
def feedWithin (f : Feeder) (fuel : Nat) : (turns : Nat) → State → Option (State × Ending)
  | 0, _ => none
  | turns + 1, s =>
    match turn f fuel s with
    | none => none
    | some (.again s) => feedWithin f fuel turns s
    | some (.done s ending) => some (s, ending)

def feed (f : Feeder) (fuel : Nat) (s : State) : Option (State × Ending) :=
  feedWithin f fuel fuel s

end TapeMachine.Feed
