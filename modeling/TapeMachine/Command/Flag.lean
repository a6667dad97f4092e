import TapeMachine.Settings
import TapeMachine.Text.Decimal
import TapeMachine.Text.Quoted
/-!
# Flags

A command line starts with flags. A flag has one or two dashes and takes a value, which follows after
an equals sign or as the next argument; a switch takes one only after an equals sign. Flags end at
the first argument that is none, or after two dashes that stand alone.
-/

set_option autoImplicit false
set_option relaxedAutoImplicit false

namespace TapeMachine.Command

inductive Switch where
  | list
  | dump
  | noRaw
  | debug
  | trace
  deriving DecidableEq, Repr

/-- A flag with its value. -/
inductive Occurrence where
  | setting (setting : Setting)
  | settingsFile (name : String)
  | code (text : String)
  | resume (name : String)
  /-- A file to be read before the standard input. -/
  | input (name : String)
  | switch (switch : Switch) (on : Bool)
  deriving DecidableEq, Repr

inductive Kind where
  | switch (switch : Switch)
  | number (give : Int → Occurrence)
  /-- A text; `argument` is the word for it in the usage. -/
  | text (argument : String) (give : String → Occurrence)

structure Flag where
  name : String
  kind : Kind
  help : String
  /-- The value it has where it is not given, as far as the usage tells it. -/
  standard : Option String

def flags : List Flag := [
  ⟨"cells", .number fun n => .setting (.cells n), "tape size in cells", some "32768"⟩,
  ⟨"config", .text "filename" .settingsFile, "load settings from TOML file filename", none⟩,
  ⟨"debug", .switch .debug, "enable debug diagnostics", none⟩,
  ⟨"dump", .switch .dump, "dump the machine state upon exit", none⟩,
  ⟨"e", .text "program" .code, "run program text instead of a program file", none⟩,
  ⟨"frame", .text "string" fun s => .setting (.frame s),
    "input framing: lines, raw or terminated", some "\"lines\""⟩,
  ⟨"in", .number fun n => .setting (.input n), "input buffer size in bytes", some "32768"⟩,
  ⟨"list", .switch .list, "print the program listing and exit", none⟩,
  ⟨"log", .text "filename" fun s => .setting (.logFile s),
    "also write JSON logs to filename", none⟩,
  ⟨"noraw", .switch .noRaw, "disable raw terminal IO", none⟩,
  ⟨"out", .number fun n => .setting (.output n), "output buffer size in bytes", some "32768"⟩,
  ⟨"resume", .text "filename" .resume, "resume the machine saved in filename", none⟩,
  ⟨"save", .text "filename" fun s => .setting (.snapshot s),
    "save a snapshot of the machine to filename if input ends while it waits", none⟩,
  ⟨"term", .text "char" fun s => .setting (.terminator s),
    "char standing for a 0 byte with -frame terminated", some "\".\""⟩,
  ⟨"trace", .switch .trace, "trace executed instructions on stderr", none⟩,
  ⟨"with", .text "filename" .input,
    "Add filename to the input list (can be specified multiple times)", none⟩]

def Flag.usage (f : Flag) : String :=
  let argument :=
    match f.kind with
    | .switch _ => ""
    | .number _ => " int"
    | .text argument _ => " " ++ argument
  let standard :=
    match f.standard with
    | some value => s!" (default {value})"
    | none => ""
  s!"  -{f.name}{argument}\n    \t{f.help}{standard}\n"

def usage : String := "Usage of tapevm:\n" ++ String.join (flags.map Flag.usage)

inductive FlagError where
  | help
  | badSyntax (argument : String)
  | unknown (name : String)
  | noValue (name : String)
  | badNumber (name value : String) (fault : Text.Integer.Fault)
  | badSwitch (name value : String)
  deriving DecidableEq, Repr

def FlagError.message : FlagError → String
  | .help => "flag: help requested"
  | .badSyntax argument => s!"bad flag syntax: {argument}"
  | .unknown name => s!"flag provided but not defined: -{name}"
  | .noValue name => s!"flag needs an argument: -{name}"
  | .badNumber name value fault =>
    let why :=
      match fault with
      | .malformed => "parse error"
      | .outOfRange => "value out of range"
    s!"invalid value {Text.quote value} for flag -{name}: {why}"
  | .badSwitch name value => s!"invalid boolean value {Text.quote value} for -{name}: parse error"

/-- An argument, as far as flags go. -/
inductive Argument where
  | plain
  /-- The mark after which there are no flags. -/
  | stop
  | flag (name : String) (value : Option String)
  | bad
  deriving DecidableEq, Repr

/-- A name and what follows the first equals sign after its first character. -/
def splitValue (name : List Char) : String × Option String :=
  match name with
  | [] => ("", none)
  | first :: rest =>
    match rest.span (· ≠ '=') with
    | (more, []) => (String.ofList (first :: more), none)
    | (more, _ :: value) => (String.ofList (first :: more), some (String.ofList value))

def Argument.ofName (name : List Char) : Argument :=
  match name with
  | [] => .bad
  | c :: _ =>
    if c = '-' || c = '=' then .bad
    else
      match splitValue name with
      | (name, value) => .flag name value

def Argument.ofString (s : String) : Argument :=
  match s.toList with
  | ['-', '-'] => .stop
  | '-' :: '-' :: name => .ofName name
  | ['-'] => .plain
  | '-' :: name => .ofName name
  | _ => .plain

def truth? (s : String) : Option Bool :=
  if ["1", "t", "T", "true", "TRUE", "True"].contains s then some true
  else if ["0", "f", "F", "false", "FALSE", "False"].contains s then some false
  else none

def flag? (name : String) : Option Flag := flags.find? (·.name = name)

def isHelp (name : String) : Bool := name = "h" || name = "help"

def Flag.occur (f : Flag) (value : String) : Except FlagError Occurrence :=
  match f.kind with
  | .switch switch =>
    match truth? value with
    | some on => .ok (.switch switch on)
    | none => .error (.badSwitch f.name value)
  | .number give =>
    match Text.Integer.parse value with
    | .ok n => .ok (give n)
    | .error fault => .error (.badNumber f.name value fault)
  | .text _ give => .ok (give value)

/-- Whether a flag takes the next argument as its value where no other is given. -/
def Flag.takesNext (f : Flag) : Bool :=
  match f.kind with
  | .switch _ => false
  | .number _ | .text _ _ => true

def prepend (occurrence : Occurrence) :
    Except FlagError (List Occurrence × List String) →
      Except FlagError (List Occurrence × List String)
  | .ok (occurrences, rest) => .ok (occurrence :: occurrences, rest)
  | .error e => .error e

/-- Reads the flags at the start of a command line. Answers them in order, and the arguments after
them. -/
def readFlags : List String → Except FlagError (List Occurrence × List String)
  | [] => .ok ([], [])
  | s :: rest =>
    match Argument.ofString s with
    | .plain => .ok ([], s :: rest)
    | .stop => .ok ([], rest)
    | .bad => .error (.badSyntax s)
    | .flag name value =>
      match flag? name with
      | none => .error (if isHelp name then .help else .unknown name)
      | some f =>
        match value with
        | some value =>
          match f.occur value with
          | .ok occurrence => prepend occurrence (readFlags rest)
          | .error e => .error e
        | none =>
          if f.takesNext then
            match rest with
            | [] => .error (.noValue name)
            | value :: rest =>
              match f.occur value with
              | .ok occurrence => prepend occurrence (readFlags rest)
              | .error e => .error e
          else
            match f.occur "true" with
            | .ok occurrence => prepend occurrence (readFlags rest)
            | .error e => .error e

end TapeMachine.Command
