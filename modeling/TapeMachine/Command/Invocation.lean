import TapeMachine.Command.Session
/-!
# Invocations

The command as it is seen from outside: its arguments, its standard streams, the files and the exit
status.
-/

set_option autoImplicit false
set_option relaxedAutoImplicit false

namespace TapeMachine.Command

structure Invocation where
  status : Nat
  output : List UInt8
  errors : List UInt8
  files : Files

def summary (m : Machine) : String :=
  s!"PC: {m.pc}, State: {m.state.name}, Pointer: {m.tape.pointer}, Instructions: {m.count.toInt}\n"

/-- What is told about a failure: its message or, with debug diagnostics, its trail and the state of the
machine. -/
def explain (debug : Bool) (machine : Option Machine) (failure : Failure) : String :=
  let report := failure.report
  if debug then
    let state :=
      match machine with
      | some m => summary m
      | none => ""
    "\n" ++ String.intercalate "\n" report.trail ++ "\n" ++ state
  else "\n" ++ report.message ++ "\n"

namespace Invocation

def refused (status : Nat) (errors : String) (files : Files) : Invocation :=
  ⟨status, [], Text.bytes errors, files⟩

/-- A command whose arguments were refused. Asking for the usage is no error. -/
def misused (e : ArgumentError) (files : Files) : Invocation :=
  match e with
  | .flag .help => refused 0 e.notice files
  | e => refused 2 (e.notice ++ e.message ++ "\n") files

def ofSession (o : Options) (s : Session) : Invocation :=
  let transcript := s.journal.transcript o.logLevel
  match s.failure with
  | none => ⟨0, s.output.accepted.toList, transcript, s.files⟩
  | some failure =>
    let told := Text.bytes (explain o.debug s.machine failure)
    ⟨1, s.output.accepted.toList, transcript ++ told, s.files⟩

end Invocation

/-- Runs the command. `none` if `fuel` did not suffice. -/
def invoke (fuel : Nat) (arguments : List String) (files : Files) (input : Source) (raw : Bool) :
    Option Invocation :=
  match parse files arguments with
  | .error e => some (.misused e files)
  | .ok o =>
    match Session.start files .unlimited o with
    | .error failure => some (.refused 1 (explain o.debug none failure) files)
    | .ok s =>
      match s.run o input raw fuel with
      | none => none
      | some s => some (.ofSession o s)

end TapeMachine.Command
