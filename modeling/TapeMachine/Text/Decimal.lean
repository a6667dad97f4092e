/-!
# Decimal numbers

Numbers as text: the digits of a number as bytes, right alignment, and the reader of integer
arguments, which takes a sign, a base mark (`0x`, `0o`, `0b`, or a leading `0` for octal) and
underscores between digits.
-/

set_option autoImplicit false
set_option relaxedAutoImplicit false

namespace TapeMachine.Text

def decimal (n : Nat) : List UInt8 := (Nat.toDigits 10 n).map fun c => c.toNat.toUInt8

def alignRight (width n : Nat) : List UInt8 :=
  let digits := decimal n
  List.replicate (width - digits.length) 32 ++ digits

namespace Integer

inductive Fault where
  | malformed
  | outOfRange
  deriving DecidableEq, Repr

/-- The value of a digit or letter as a digit. -/
def digit? (c : Char) : Option Nat :=
  if '0' ≤ c && c ≤ '9' then some (c.toNat - '0'.toNat)
  else if 'a' ≤ c && c ≤ 'z' then some (c.toNat - 'a'.toNat + 10)
  else if 'A' ≤ c && c ≤ 'Z' then some (c.toNat - 'A'.toNat + 10)
  else none

/-- Reads digits of a base from left to right. The first fault decides: a character that is no
digit, or a value beyond an unsigned 64 bit word. -/
def magnitude (base : Nat) (underscores : Bool) (value : Nat) : List Char → Except Fault Nat
  | [] => .ok value
  | c :: rest =>
    if c = '_' && underscores then magnitude base underscores value rest
    else
      match digit? c with
      | none => .error .malformed
      | some d =>
        if base ≤ d then .error .malformed
        else if 0x10000000000000000 ≤ value * base + d then .error .outOfRange
        else magnitude base underscores (value * base + d) rest

/-- The base of an unsigned number, what follows its mark, and the mark's letter if it has one. -/
def base : List Char → Nat × List Char × Option Char
  | '0' :: mark :: c :: rest =>
    if mark = 'x' || mark = 'X' then (16, c :: rest, some 'x')
    else if mark = 'o' || mark = 'O' then (8, c :: rest, some 'o')
    else if mark = 'b' || mark = 'B' then (2, c :: rest, some 'b')
    else (8, mark :: c :: rest, none)
  | '0' :: rest => (8, rest, none)
  | digits => (10, digits, none)

/-- Whether every underscore stands after a digit and before a digit; `afterDigit` tells whether
the character before is a digit. -/
def separated (hex : Bool) (afterDigit afterUnderscore : Bool) : List Char → Bool
  | [] => !afterUnderscore
  | c :: rest =>
    if c.isDigit || (hex && (digit? c).any (· < 16)) then separated hex true false rest
    else if c = '_' then afterDigit && separated hex false true rest
    else !afterUnderscore && separated hex false false rest

/-- Whether the underscores of an unsigned number separate its digits; a base mark counts as a
digit. -/
def wellSeparated (digits : List Char) : Bool :=
  match base digits with
  | (_, rest, some mark) => separated (mark = 'x') true false rest
  | (_, _, none) => separated false false false digits

def unsigned (digits : List Char) : Except Fault Nat :=
  if digits.isEmpty then .error .malformed
  else
    let (b, rest, _) := base digits
    match magnitude b true 0 rest with
    | .error e => .error e
    | .ok value =>
      if digits.contains '_' && !wellSeparated digits then .error .malformed else .ok value

/-- Applies a sign to a magnitude read before; the result fits a signed 64 bit word. -/
def signed (negative : Bool) : Except Fault Nat → Except Fault Int
  | .error e => .error e
  | .ok value =>
    if negative then if value ≤ 0x8000000000000000 then .ok (-value) else .error .outOfRange
    else if value < 0x8000000000000000 then .ok value
    else .error .outOfRange

def parse (s : String) : Except Fault Int :=
  match s.toList with
  | '+' :: rest => signed false (unsigned rest)
  | '-' :: rest => signed true (unsigned rest)
  | digits => signed false (unsigned digits)

/-- Reads a decimal integer with an optional sign and nothing else. -/
def parseDecimal (s : String) : Except Fault Int :=
  let digits (cs : List Char) : Except Fault Nat :=
    if cs.isEmpty then .error .malformed else magnitude 10 false 0 cs
  match s.toList with
  | '+' :: rest => signed false (digits rest)
  | '-' :: rest => signed true (digits rest)
  | cs => signed false (digits cs)

end Integer

end TapeMachine.Text
