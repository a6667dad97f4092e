import TapeMachine.Settings
import TapeMachine.Files
import TapeMachine.Text.Quoted
import TapeMachine.Toml.Document
/-!
# Settings files

A settings file is a TOML document whose keys are the names of settings, in any case. A key that is
no setting is refused, as is a value of the wrong type; of a file with both faults the wrong type is
told.
-/

set_option autoImplicit false
set_option relaxedAutoImplicit false

namespace TapeMachine.Settings

/-- A character without its case, as far as it folds to a lower case letter of the alphabet. -/
def foldChar (c : Char) : Char :=
  if c.toNat = 0x17F then 's' else if c.toNat = 0x212A then 'k' else c.toLower

/-- What a setting is made of. -/
inductive Reading where
  | number (give : Int → Setting)
  | text (give : String → Setting)

def keys : List (String × Reading) := [
  ("cells", .number .cells),
  ("input", .number .input),
  ("output", .number .output),
  ("frame", .text .frame),
  ("terminator", .text .terminator),
  ("log-file", .text .logFile),
  ("log-level", .text .logLevel),
  ("snapshot", .text .snapshot)]

/-- How the value of a key is read; `none` if it is the key of no setting. -/
def reading? (key : String) : Option Reading :=
  (keys.find? fun (name, _) => name.toList = key.toList.map foldChar).map (·.2)

def Reading.read? : Reading → Toml.Node → Option Setting
  | .number give, .integer n => some (give n)
  | .text give, .string s => some (give s)
  | _, _ => none

/-- The settings that the keys of a table give, of those keys that are settings; `none` if one has
the wrong type. -/
def ofTable? : Toml.Table → Option (List Setting)
  | [] => some []
  | (key, node) :: rest =>
    match reading? key with
    | none => ofTable? rest
    | some reading =>
      match reading.read? node, ofTable? rest with
      | some setting, some settings => some (setting :: settings)
      | _, _ => none

def isKnown : Toml.Key → Bool
  | [key] => (reading? key).isSome
  | _ => false

def keyChar (c : Char) : String :=
  let n := c.toNat
  if c = '"' then "\\\""
  else if c = '\\' then "\\\\"
  else if n = 8 then "\\b"
  else if n = 9 then "\\t"
  else if n = 10 then "\\n"
  else if n = 12 then "\\f"
  else if n = 13 then "\\r"
  else if n < 0x20 || n = 0x7F then "\\u" ++ Text.hex 4 n
  else c.toString

/-- A part of a key, quoted unless it can be written without quotes. -/
def keyPart (part : String) : String :=
  if !part.isEmpty && part.toList.all Toml.isBare then part
  else "\"" ++ String.join (part.toList.map keyChar) ++ "\""

def keyText (path : Toml.Key) : String := String.intercalate "." (path.map keyPart)

inductive FileError where
  | unreadable (name : String) (fault : Fault)
  | malformed (name : String)
  | mistyped (name : String)
  | unknownKey (name : String) (key : Toml.Key)
  deriving DecidableEq

def FileError.message : FileError → String
  | .unreadable name fault => s!"config {name}: {fault.message}"
  | .malformed name => s!"config {name}: toml: malformed document"
  | .mistyped name => s!"config {name}: toml: incompatible types"
  | .unknownKey name key => s!"config {name}: unknown key {Text.quote (keyText key)}"

def ofBytes (name : String) (content : List UInt8) : Except FileError (List Setting) :=
  match Toml.Document.ofBytes? content with
  | none => .error (.malformed name)
  | some document =>
    match ofTable? document.table.reverse with
    | none => .error (.mistyped name)
    | some settings =>
      match document.paths.find? fun path => !isKnown path with
      | some path => .error (.unknownKey name path)
      | none => .ok settings

def load (files : Files) (name : String) : Except FileError (List Setting) :=
  match files.openSource name with
  | .error fault => .error (.unreadable name (.file fault))
  | .ok source =>
    match source.readAll with
    | .error fault => .error (.unreadable name fault)
    | .ok content => ofBytes name content

end TapeMachine.Settings
