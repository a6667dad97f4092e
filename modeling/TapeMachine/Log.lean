import TapeMachine.Machine.Basic
import TapeMachine.Text.Quoted
import TapeMachine.Text.Decimal
/-!
# Logging

A record has a level, a message and named values. It is written as a line of text, in which a value
is quoted if it would not be read back as one word, or as a line of JSON. Levels are numbers with
a name for every fourth; a level is written as a name and an offset from it.
-/

set_option autoImplicit false
set_option relaxedAutoImplicit false

namespace TapeMachine.Log

/-- The levels with a name. -/
inductive Level where
  | debug
  | info
  /-- Events that may be unwanted. -/
  | warn
  | error
  deriving DecidableEq, Repr

namespace Level

def toInt64 : Level → Int64
  | .debug => -4
  | .info => 0
  | .warn => 4
  | .error => 8

def name : Level → String
  | .debug => "DEBUG"
  | .info => "INFO"
  | .warn => "WARN"
  | .error => "ERROR"

def all : List Level := [.debug, .info, .warn, .error]

def upper (c : Char) : Char :=
  if c.toNat = 0x131 then 'I' else if c.toNat = 0x17F then 'S' else c.toUpper

def ofName? (name : String) : Option Level :=
  all.find? fun level => level.name.toList = name.toList.map upper

end Level

inductive LevelError where
  | unknownName (text : String)
  | badOffset (text offset : String) (fault : Text.Integer.Fault)
  deriving DecidableEq

def LevelError.message : LevelError → String
  | .unknownName text => s!"slog: level string {Text.quote text}: unknown name"
  | .badOffset text offset fault =>
    let why :=
      match fault with
      | .malformed => "invalid syntax"
      | .outOfRange => "value out of range"
    s!"slog: level string {Text.quote text}: strconv.Atoi: parsing {Text.quote offset}: {why}"

/-- Reads a level: a name and, after a sign, an offset. The offset is looked at first. Levels are
signed 64 bit words. -/
def parseLevel (text : String) : Except LevelError Int64 :=
  let (name, offset) := text.toList.span fun c => c ≠ '+' && c ≠ '-'
  let named (offset : Int64) : Except LevelError Int64 :=
    match Level.ofName? (String.ofList name) with
    | some level => .ok (level.toInt64 + offset)
    | none => .error (.unknownName text)
  match offset with
  | [] => named 0
  | offset =>
    match Text.Integer.parseDecimal (String.ofList offset) with
    | .ok n => named (Int64.ofInt n)
    | .error fault => .error (.badOffset text (String.ofList offset) fault)

inductive Value where
  | number (n : Int)
  | text (s : String)
  /-- A run state: a name in text, a number in JSON. -/
  | state (s : RunState)
  deriving DecidableEq, Repr

/-- An event with named values. -/
structure Record where
  level : Level
  message : String
  values : List (String × Value)
  deriving DecidableEq, Repr

def isPlain (c : Char) : Bool :=
  let n := c.toNat
  if n < 0x80 then 0x20 < n && c ≠ '"' && c ≠ '='
  else n ≠ 0xFFFD && !Text.isSpace c && Text.isPrintable c

/-- A text as one word, quoted if need be. -/
def word (s : String) : String :=
  if !s.isEmpty && s.toList.all isPlain then s else Text.quote s

def Value.toText : Value → String
  | .number n => toString n
  | .text s => word s
  | .state s => word s.name

def jsonChar (c : Char) : String :=
  let n := c.toNat
  if c = '"' then "\\\""
  else if c = '\\' then "\\\\"
  else if n = 10 then "\\n"
  else if n = 13 then "\\r"
  else if n = 9 then "\\t"
  else if n < 0x20 then "\\u" ++ Text.hex 4 n
  else if n = 0x2028 || n = 0x2029 then "\\u" ++ Text.hex 4 n
  else c.toString

def jsonText (s : String) : String := "\"" ++ String.join (s.toList.map jsonChar) ++ "\""

def Value.toJson : Value → String
  | .number n => toString n
  | .text s => jsonText s
  | .state s => toString s.toNat

namespace Record

def textLine (r : Record) : String :=
  let values := r.values.map fun (key, value) => s!" {key}={value.toText}"
  s!"level={r.level.name} msg={word r.message}{String.join values}\n"

def jsonLine (r : Record) : String :=
  let values := r.values.map fun (key, value) => s!",{jsonText key}:{value.toJson}"
  let level := jsonText r.level.name
  let message := jsonText r.message
  "\x7b\"level\":" ++ level ++ ",\"msg\":" ++ message ++ String.join values ++ "\x7d\n"

end Record

end TapeMachine.Log
