import TapeMachine.Toml.Text
/-!
# Statements of settings files

A TOML document is a sequence of statements, one to a line: assignments, table headers and headers
of tables in arrays. Values may go on over several lines.
-/

set_option autoImplicit false
set_option relaxedAutoImplicit false

namespace TapeMachine.Toml

abbrev Key := List String

inductive Value where
  | string (s : String)
  | integer (n : Int)
  /-- A number, truth value or date that no setting can be. -/
  | other
  | array (elements : List Value)
  | table (entries : List (Key × Value))

inductive Statement where
  | assign (key : Key) (value : Value)
  | table (key : Key)
  | element (key : Key)

def isWord (c : Char) : Bool :=
  c.isAlphanum || c = '_' || c = '+' || c = '-' || c = '.' || c = ':'

def wordValue? (s : List Char) : Option Value :=
  if s = ['t', 'r', 'u', 'e'] || s = ['f', 'a', 'l', 's', 'e'] then some .other
  else
    match integer? s with
    | some n => some (.integer n)
    | none => if isFloat s || isDateTime s then some .other else none

/-- Reads a number, a date or a truth value. A date may be followed by a blank and a time. -/
def word? : Reader Value := fun s =>
  let (first, rest) := s.span isWord
  match rest with
  | ' ' :: c :: _ =>
    if isDate first && c.isDigit then
      let (second, rest) := (rest.drop 1).span isWord
      (wordValue? (first ++ ' ' :: second)).map (·, rest)
    else (wordValue? first).map (·, rest)
  | rest => (wordValue? first).map (·, rest)

mutual

/-- Reads a value. `fuel` bounds the number of values and entries, and `bound` is more than the
number of characters of a string or a key. -/
def value? (bound : Nat) : (fuel : Nat) → Reader Value
  | 0, _ => none
  | fuel + 1, s =>
    match s with
    | '[' :: rest => (elements? bound fuel [] rest).map fun (elements, rest) => (.array elements, rest)
    | '\x7b' :: rest => (entries? bound fuel [] rest).map fun (entries, rest) => (.table entries, rest)
    | c :: rest =>
      if c = '"' || c = '\'' then (string? bound (c :: rest)).map fun (s, rest) => (.string s, rest)
      else word? (c :: rest)
    | [] => none

/-- Reads the elements of an array up to its bracket; `read` holds those read before, last first. A
comma may follow the last one. -/
def elements? (bound : Nat) : (fuel : Nat) → (read : List Value) → Reader (List Value)
  | 0, _, _ => none
  | fuel + 1, read, s =>
    match skipLines false s with
    | ']' :: rest => some (read.reverse, rest)
    | s =>
      match value? bound fuel s with
      | none => none
      | some (value, rest) =>
        match skipLines false rest with
        | ',' :: rest => elements? bound fuel (value :: read) rest
        | ']' :: rest => some ((value :: read).reverse, rest)
        | _ => none

def entries? (bound : Nat) :
    (fuel : Nat) → (read : List (Key × Value)) → Reader (List (Key × Value))
  | 0, _, _ => none
  | fuel + 1, read, s =>
    match skipLines false s with
    | '\x7d' :: rest => some (read.reverse, rest)
    | s =>
      match assignment? bound fuel s with
      | none => none
      | some (entry, rest) =>
        match skipLines false rest with
        | ',' :: rest => entries? bound fuel (entry :: read) rest
        | '\x7d' :: rest => some ((entry :: read).reverse, rest)
        | _ => none

def assignment? (bound : Nat) : (fuel : Nat) → Reader (Key × Value)
  | 0, _ => none
  | fuel + 1, s =>
    match key? bound s with
    | some (key, '=' :: rest) =>
      match value? bound fuel (skipBlanks rest) with
      | some (value, rest) => some ((key, value), rest)
      | none => none
    | _ => none

end

/-- Reads a statement that starts with the first character of the text; `bound` is more than the
number of its characters. -/
def statement? (bound : Nat) : Reader Statement
  | '[' :: '[' :: rest =>
    match key? bound rest with
    | some (key, ']' :: ']' :: rest) => some (.element key, rest)
    | _ => none
  | '[' :: rest =>
    match key? bound rest with
    | some (key, ']' :: rest) => some (.table key, rest)
    | _ => none
  | s => (assignment? bound (2 * bound) s).map fun ((key, value), rest) => (.assign key value, rest)

/-- Reads all statements; `read` holds those read before, last first. `fuel` bounds their number, and
`bound` is more than the number of characters of each. -/
def statements? (bound : Nat) :
    (fuel : Nat) → (read : List Statement) → List Char → Option (List Statement)
  | 0, _, _ => none
  | fuel + 1, read, s =>
    match skipLines false s with
    | [] => some read.reverse
    | s =>
      match statement? bound s with
      | none => none
      | some (statement, rest) =>
        match endLine? rest with
        | some rest => statements? bound fuel (statement :: read) rest
        | none => none

def parse? (s : List Char) : Option (List Statement) :=
  if isAdmissible s then statements? (s.length + 1) (s.length + 1) [] s else none

end TapeMachine.Toml
