import TapeMachine.Toml.Scalar
/-!
# Texts and blanks of settings files

The spelling of TOML strings, keys, blanks and comments. A reader takes what it reads from the
start of the text and answers it with what follows; `none` where the text breaks the rules.
-/

set_option autoImplicit false
set_option relaxedAutoImplicit false

namespace TapeMachine.Toml

/-- A reader of something at the start of a text. -/
abbrev Reader (α : Type) := List Char → Option (α × List Char)

def isControl (c : Char) : Bool :=
  let n := c.toNat
  (n < 0x20 && n ≠ 9 && n ≠ 10 && n ≠ 13) || n = 0x7F

/-- Whether a text has no control characters and no carriage return without a line feed. -/
def isAdmissible : List Char → Bool
  | [] => true
  | '\r' :: '\n' :: rest => isAdmissible rest
  | '\r' :: _ => false
  | c :: rest => !isControl c && isAdmissible rest

def skipBlanks (s : List Char) : List Char := s.dropWhile fun c => c = ' ' || c = '\t'

def afterLine? : List Char → Option (List Char)
  | '\n' :: rest => some rest
  | '\r' :: '\n' :: rest => some rest
  | _ => none

def skipComment : List Char → List Char
  | '#' :: rest => rest.dropWhile (· ≠ '\n')
  | s => s

/-- Drops blanks, line ends and comments; `comment` tells whether the text starts inside one. -/
def skipLines (comment : Bool) : List Char → List Char
  | [] => []
  | c :: rest =>
    if c = '\n' then skipLines false rest
    else if comment then skipLines true rest
    else if c = ' ' || c = '\t' || c = '\r' then skipLines false rest
    else if c = '#' then skipLines true rest
    else c :: rest

/-- The rest of the line after an item, which may hold only blanks and a comment. -/
def endLine? (s : List Char) : Option (List Char) :=
  match skipComment (skipBlanks s) with
  | [] => some []
  | s => afterLine? s

def codePoint? (width : Nat) (s : List Char) : Option (Char × List Char) :=
  let digits := s.take width
  if digits.length = width then
    match ofDigits? 16 0 digits with
    | some n =>
      if n.isValidChar then some (Char.ofNat n, s.drop width) else none
    | none => none
  else none

def escape? : Reader Char
  | 'b' :: rest => some (Char.ofNat 8, rest)
  | 't' :: rest => some ('\t', rest)
  | 'n' :: rest => some ('\n', rest)
  | 'f' :: rest => some (Char.ofNat 12, rest)
  | 'r' :: rest => some ('\r', rest)
  | 'e' :: rest => some (Char.ofNat 27, rest)
  | '"' :: rest => some ('"', rest)
  | '\\' :: rest => some ('\\', rest)
  | 'x' :: rest => codePoint? 2 rest
  | 'u' :: rest => codePoint? 4 rest
  | 'U' :: rest => codePoint? 8 rest
  | _ => none

/-- Reads the rest of a one-line string up to its quote; `read` holds what was read before, last
first. `fuel` bounds the number of characters. -/
def lineString? (quote : Char) (escapes : Bool) : (fuel : Nat) → (read : List Char) → Reader String
  | 0, _, _ => none
  | fuel + 1, read, s =>
    match s with
    | [] => none
    | c :: rest =>
      if c = quote then some (String.ofList read.reverse, rest)
      else if c = '\n' || c = '\r' then none
      else if c = '\\' && escapes then
        match escape? rest with
        | some (c, rest) => lineString? quote escapes fuel (c :: read) rest
        | none => none
      else lineString? quote escapes fuel (c :: read) rest

/-- What follows a backslash at the end of a line: everything from the next character that is no
blank or line end on. -/
def continued? (s : List Char) : Option (List Char) :=
  match afterLine? (skipBlanks s) with
  | some rest => some (rest.dropWhile fun c => c = ' ' || c = '\t' || c = '\n' || c = '\r')
  | none => none

/-- The most quotes that may stand together in a string of several lines: the three that end it, and
two before them. After a backslash that was escaped, there may be three before them. -/
def maxQuotes (afterBackslash : Bool) : Nat := if afterBackslash then 6 else 5

/-- Reads the rest of a string of several lines up to its three quotes; `read` holds what was read
before, last first, and `afterBackslash` tells whether an escaped backslash was read last. `fuel`
bounds the number of characters. -/
def blockString? (quote : Char) (escapes : Bool) :
    (fuel : Nat) → (afterBackslash : Bool) → (read : List Char) → Reader String
  | 0, _, _, _ => none
  | fuel + 1, afterBackslash, read, s =>
    match s with
    | [] => none
    | c :: rest =>
      if c = quote then
        let run := (s.takeWhile (· = quote)).length
        if run < 3 then
          blockString? quote escapes fuel false (List.replicate run quote ++ read) (s.drop run)
        else if maxQuotes afterBackslash < run then none
        else some (String.ofList (List.replicate (run - 3) quote ++ read).reverse, s.drop run)
      else if c = '\\' && escapes then
        match continued? rest with
        | some rest => blockString? quote escapes fuel false read rest
        | none =>
          match escape? rest with
          | some (c, after) =>
            blockString? quote escapes fuel (rest.head? = some '\\') (c :: read) after
          | none => none
      else blockString? quote escapes fuel false (c :: read) rest

def skipFirstLine (s : List Char) : List Char := (afterLine? s).getD s

def string? (bound : Nat) : Reader String
  | quote :: rest =>
    let escapes : Bool := quote = '"'
    match rest with
    | a :: b :: block =>
      if a = quote && b = quote then
        blockString? quote escapes bound false [] (skipFirstLine block)
      else lineString? quote escapes bound [] rest
    | rest => lineString? quote escapes bound [] rest
  | [] => none

def isBare (c : Char) : Bool := c.isAlphanum || c = '_' || c = '-'

def keyPart? (bound : Nat) : Reader String
  | c :: rest =>
    if c = '"' || c = '\'' then lineString? c (c = '"') bound [] rest
    else
      let (bare, rest) := (c :: rest).span isBare
      if bare.isEmpty then none else some (String.ofList bare, rest)
  | [] => none

def keyParts? (bound : Nat) : (fuel : Nat) → Reader (List String)
  | 0, _ => none
  | fuel + 1, s =>
    match keyPart? bound (skipBlanks s) with
    | none => none
    | some (part, rest) =>
      match skipBlanks rest with
      | '.' :: rest =>
        match keyParts? bound fuel rest with
        | some (parts, rest) => some (part :: parts, rest)
        | none => none
      | rest => some ([part], rest)

/-- Reads a key and the blanks after it; `bound` is more than the number of its characters. -/
def key? (bound : Nat) : Reader (List String) := keyParts? bound bound

end TapeMachine.Toml
