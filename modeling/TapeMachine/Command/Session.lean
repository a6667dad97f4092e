import TapeMachine.Assembly
import TapeMachine.Dump
import TapeMachine.Image.Storage
import TapeMachine.Command.Options
/-!
# Sessions

What a command does once its options are known: it lists a program, or builds a machine, feeds it and,
if the input ends while the machine waits, saves it. A session starts by opening the log file, so that
the file exists even if nothing is logged.
-/

set_option autoImplicit false
set_option relaxedAutoImplicit false

namespace TapeMachine.Command

/-- Why a session failed. -/
inductive Failure where
  | logFile (fault : FileFault)
  | program (fault : FileFault)
  | assembly (error : Assembly.Error)
  | brackets (error : BracketError)
  | load (error : Image.LoadError)
  | size (error : SizeError)
  | restore (error : RestoreError)
  | input (fault : FileFault)
  | feed (error : Feed.Error)
  | save (error : Image.SaveError)
  | write (fault : WriteFault)
  deriving DecidableEq

def Failure.report : Failure → Report
  | .logFile fault => (Fault.file fault).report.within "log file"
  | .program fault => (Fault.file fault).report
  | .assembly error => error.report
  | .brackets error => .ofCause error.message
  | .load error => error.report
  | .size error => error.report
  | .restore error => error.report
  | .input fault => (Fault.file fault).report
  | .feed error => error.report
  | .save error => error.report
  | .write fault => fault.report

/-- A session and what has come of it. -/
structure Session where
  files : Files
  output : Sink
  journal : Feed.Journal
  machine : Option Machine
  failure : Option Failure

def textName : String := "-e"

/-- The program that would be listed. A saved machine, and a file without a name, have none. -/
def loadProgram (files : Files) (origin : Origin) : Except Failure (List UInt8) :=
  let assembled (name : String) (source : Source) : Except Failure (List UInt8) :=
    match Assembly.assemble name source with
    | .ok program => .ok program
    | .error e => .error (.assembly e)
  if origin.fileName.isEmpty then assembled textName (.ofBytes (Text.bytes origin.code))
  else
    match files.openSource origin.fileName with
    | .error fault => .error (.program fault)
    | .ok source => assembled origin.fileName source

def prepareMachine (files : Files) (settings : Settings) (origin : Origin) : Except Failure Machine :=
  match loadProgram files origin with
  | .error e => .error e
  | .ok program =>
    match Machine.create [(.cells, settings.cells), (.input, settings.input),
        (.output, settings.output)] with
    | .error e => .error (.size e)
    | .ok m =>
      match m.prepare program with
      | .error e => .error (.brackets e)
      | .ok m => .ok m

/-- Builds a machine from a saved one. Answers the blank machine with the failure where the saved state
is refused. -/
def resumeMachine (files : Files) (name : String) : Except (Failure × Option Machine) Machine :=
  match Image.load files name with
  | .error e => .error (.load e, none)
  | .ok img =>
    match Machine.create img.sizes with
    | .error e => .error (.size e, none)
    | .ok m =>
      match m.restore img with
      | .error e => .error (.restore e, some m)
      | .ok m => .ok m

/-- Builds the machine that is to be run. -/
def buildMachine (files : Files) (o : Options) : Except (Failure × Option Machine) Machine :=
  match o.origin with
  | .snapshot name => resumeMachine files name
  | origin =>
    match prepareMachine files o.settings origin with
    | .error e => .error (e, none)
    | .ok m => .ok m

def openInputs (files : Files) : List String → Except FileFault Source
  | [] => .ok (.ofBytes [])
  | name :: rest =>
    match files.openSource name, openInputs files rest with
    | .error fault, _ => .error fault
    | .ok _, .error fault => .error fault
    | .ok source, .ok sources => .ok (source.append sources)

def readyRecord (m : Machine) : Log.Record :=
  ⟨.debug, "machine ready",
    [("pc", .number m.pc), ("state", .state m.state), ("cells", .number m.tape.size)]⟩

def endedRecord (m : Machine) : Log.Record :=
  ⟨.warn, "input ended while waiting for input", [("pc", .number m.pc)]⟩

def savedRecord (name : String) (m : Machine) : Log.Record :=
  ⟨.info, "snapshot saved", [("file", .text name), ("pc", .number m.pc)]⟩

def openLog (files : Files) (settings : Settings) : Except FileFault Files :=
  if settings.logFile.isEmpty then .ok files else files.append settings.logFile []

def keepLog (o : Options) (journal : Feed.Journal) (files : Files) : Files :=
  if o.settings.logFile.isEmpty then files
  else
    let lines := (journal.records o.logLevel).map Log.Record.jsonLine
    match files.append o.settings.logFile (Text.bytes (String.join lines)) with
    | .ok files => files
    | .error _ => files

namespace Session

def fail (s : Session) (failure : Failure) : Session := { s with failure := some failure }

def log (s : Session) (o : Options) (record : Log.Record) : Session :=
  { s with
    files := keepLog o (Feed.Journal.unlimited.log record) s.files
    journal := s.journal.log record }

def list (s : Session) (o : Options) : Session :=
  match loadProgram s.files o.origin with
  | .error e => s.fail e
  | .ok program =>
    match Listing.write program (.sink s.output) with
    | .error e => s.fail (.brackets e)
    | .ok (w, fault) => { s with output := w.sink, failure := fault.map .write }

/-- What is done for a machine whose input has ended: it is saved, or a warning is logged. -/
def suspend (s : Session) (o : Options) (m : Machine) : Session :=
  let name := o.settings.snapshot
  if name.isEmpty then s.log o (endedRecord m)
  else
    match Image.save s.files name m.image? with
    | .error e => s.fail (.save e)
    | .ok files => { s with files := files }.log o (savedRecord name m)

/-- Dumps the machine if that is asked for and nothing has failed. -/
def dump (s : Session) (o : Options) (m : Machine) : Session :=
  if o.dump && s.failure.isNone then
    let (w, fault) := Dump.write m (.sink s.output)
    { s with output := w.sink, failure := fault.map .write }
  else s

/-- Feeds a machine and does what is to be done at its end. `none` if `fuel` did not suffice. -/
def feed (s : Session) (o : Options) (raw : Bool) (fuel : Nat) (m : Machine) (input : Source) :
    Option Session :=
  let feeder := o.feeder (raw && o.inputs.isEmpty)
  match Feed.feed feeder fuel (.start m input s.output .unlimited) with
  | none => none
  | some (done, ending) =>
    let s : Session := {
      files := keepLog o done.journal s.files
      output := done.output
      journal := { s.journal with notes := done.journal.notes ++ s.journal.notes }
      machine := some done.machine
      failure := none }
    match ending with
    | .failed e => some (s.fail (.feed e))
    | .halted => some (s.dump o done.machine)
    | .inputEnded => some ((s.suspend o done.machine).dump o done.machine)

end Session

/-- Runs a session: lists the program, or builds the machine and feeds it. `none` if `fuel` did not
suffice. -/
def Session.run (s : Session) (o : Options) (input : Source) (raw : Bool) (fuel : Nat) :
    Option Session :=
  if o.list then some (s.list o)
  else
    match buildMachine s.files o with
    | .error (failure, machine) => some ({ s with machine := machine }.fail failure)
    | .ok m =>
      let s := { s with machine := some m }.log o (readyRecord m)
      match openInputs s.files o.inputs with
      | .error fault => some (s.fail (.input fault))
      | .ok inputs => s.feed o raw fuel m (inputs.append input)

def Session.start (files : Files) (output : Sink) (o : Options) : Except Failure Session :=
  match openLog files o.settings with
  | .error fault => .error (.logFile fault)
  | .ok files => .ok ⟨files, output, .unlimited, none, none⟩

end TapeMachine.Command
