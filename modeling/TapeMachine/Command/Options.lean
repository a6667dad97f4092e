import TapeMachine.Settings.File
import TapeMachine.Log
import TapeMachine.Feed.Loop
import TapeMachine.Command.Flag
/-!
# Options

The meaning of a command line. A setting is taken from the last flag that gives it, else from the
settings file, else it has its standard value, wherever the settings file is named among the flags.
The program is taken from one of three places: a file, the command line itself, or a saved machine.
-/

set_option autoImplicit false
set_option relaxedAutoImplicit false

namespace TapeMachine.Command

/-- Where the program is taken from. -/
inductive Origin where
  | file (name : String)
  | text (code : String)
  /-- A saved machine, with its state. -/
  | snapshot (name : String)
  deriving DecidableEq, Repr

namespace Origin

def fileName : Origin → String
  | .file name => name
  | .text _ | .snapshot _ => ""

def code : Origin → String
  | .text code => code
  | .file _ | .snapshot _ => ""

def snapshotName : Origin → String
  | .snapshot name => name
  | .file _ | .text _ => ""

end Origin

structure Options where
  settings : Settings
  framing : Feed.Framing
  logLevel : Int64
  origin : Origin
  inputs : List String
  list : Bool
  dump : Bool
  noRaw : Bool
  debug : Bool
  trace : Bool
  deriving DecidableEq

inductive ArgumentError where
  | flag (error : FlagError)
  | settingsFile (error : Settings.FileError)
  | logLevel (error : Log.LevelError)
  | framing (name : String)
  /-- The terminator is not a single byte. -/
  | terminator (text : String)
  | snapshotAndProgram
  | textAndFile
  /-- There is not exactly one program file. -/
  | fileCount (count : Nat)
  deriving DecidableEq

def ArgumentError.message : ArgumentError → String
  | .flag error => error.message
  | .settingsFile error => error.message
  | .logLevel error => s!"log-level: {error.message}"
  | .framing name => s!"unknown framing {Text.quote name}"
  | .terminator text => s!"terminator must be a single byte, got {Text.quote text}"
  | .snapshotAndProgram => "-resume cannot be used with a program"
  | .textAndFile => "-e cannot be used with a program file"
  | .fileCount count => s!"expected exactly one program file, got {count}"

/-- What is shown as soon as flags cannot be read: the error, unless the usage was asked for, and the
usage. -/
def ArgumentError.notice : ArgumentError → String
  | .flag .help => usage
  | .flag error => error.message ++ "\n" ++ usage
  | _ => ""

def givenSettings (occurrences : List Occurrence) : List Setting :=
  occurrences.filterMap fun
    | .setting setting => some setting
    | _ => none

def settingsFile? (occurrences : List Occurrence) : Option String :=
  let names := occurrences.filterMap fun
    | .settingsFile name => some name
    | _ => none
  names.getLast?.filter (!·.isEmpty)

def lastCode (occurrences : List Occurrence) : String :=
  let texts := occurrences.filterMap fun
    | .code text => some text
    | _ => none
  texts.getLastD ""

def lastResume (occurrences : List Occurrence) : String :=
  let names := occurrences.filterMap fun
    | .resume name => some name
    | _ => none
  names.getLastD ""

def inputFiles (occurrences : List Occurrence) : List String :=
  occurrences.filterMap fun
    | .input name => some name
    | _ => none

/-- Whether a switch is on after its last occurrence. -/
def isOn (occurrences : List Occurrence) (switch : Switch) : Bool :=
  let values := occurrences.filterMap fun
    | .switch other on => if other = switch then some on else none
    | _ => none
  values.getLastD false

/-- The framing of a name, with a terminator if it needs one. -/
def framing (name terminator : String) : Except ArgumentError Feed.Framing :=
  if name = "lines" then .ok .lines
  else if name = "raw" then .ok .raw
  else if name = "terminated" then
    match Text.bytes terminator with
    | [c] => .ok (.terminated c)
    | _ => .error (.terminator terminator)
  else .error (.framing name)

/-- The origin of the program: a saved machine, a program text or the only argument. An empty name or
text counts as not given. -/
def origin (resume code : String) (arguments : List String) : Except ArgumentError Origin :=
  if !resume.isEmpty then
    if arguments.isEmpty && code.isEmpty then .ok (.snapshot resume) else .error .snapshotAndProgram
  else if !code.isEmpty then
    if arguments.isEmpty then .ok (.text code) else .error .textAndFile
  else
    match arguments with
    | [name] => .ok (.file name)
    | _ => .error (.fileCount arguments.length)

/-- The settings that are in force: those of the file, over which come those of the flags. With debug
diagnostics everything is logged. -/
def layered (file given : List Setting) (debug : Bool) : Settings :=
  let settings := (Settings.standard.setAll file).setAll given
  if debug then settings.set (.logLevel "debug") else settings

def fileSettings (files : Files) (occurrences : List Occurrence) :
    Except Settings.FileError (List Setting) :=
  match settingsFile? occurrences with
  | some name => Settings.load files name
  | none => .ok []

def resolve (files : Files) (occurrences : List Occurrence) (arguments : List String) :
    Except ArgumentError Options :=
  match fileSettings files occurrences with
  | .error e => .error (.settingsFile e)
  | .ok file =>
    let debug := isOn occurrences .debug
    let settings := layered file (givenSettings occurrences) debug
    match Log.parseLevel settings.logLevel with
    | .error e => .error (.logLevel e)
    | .ok logLevel =>
      match framing settings.frame settings.terminator with
      | .error e => .error e
      | .ok framing =>
        match origin (lastResume occurrences) (lastCode occurrences) arguments with
        | .error e => .error e
        | .ok origin =>
          .ok {
            settings, framing, logLevel, origin, debug
            inputs := inputFiles occurrences
            list := isOn occurrences .list
            dump := isOn occurrences .dump
            noRaw := isOn occurrences .noRaw
            trace := isOn occurrences .trace }

/-- The options that a command line stands for. -/
def parse (files : Files) (arguments : List String) : Except ArgumentError Options :=
  match readFlags arguments with
  | .error e => .error (.flag e)
  | .ok (occurrences, rest) => resolve files occurrences rest

/-- How the machine is fed. On a raw terminal input comes byte by byte, and its end is a character; line
feeds come through as they are typed. -/
def Options.feeder (o : Options) (raw : Bool) : Feed.Feeder where
  split := if raw || o.framing = .raw then .bytes else .lines
  frame :=
    if raw then (if o.framing = .lines then .raw else o.framing.frame).untilTransmission
    else o.framing.frame
  tracing := o.trace

end TapeMachine.Command
