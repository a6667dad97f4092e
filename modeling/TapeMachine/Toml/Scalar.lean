/-!
# Numbers and dates of settings files

The spelling of TOML numbers and dates. Underscores stand between digits; a decimal number has no
leading zero; numbers in other bases have no sign. Floating point numbers and dates are only
checked, since no setting is one.
-/

set_option autoImplicit false
set_option relaxedAutoImplicit false

namespace TapeMachine.Toml

def hexDigit? (c : Char) : Option Nat :=
  if c.isDigit then some (c.toNat - '0'.toNat)
  else if 'a' ≤ c && c ≤ 'f' then some (c.toNat - 'a'.toNat + 10)
  else if 'A' ≤ c && c ≤ 'F' then some (c.toNat - 'A'.toNat + 10)
  else none

def ofDigits? (base value : Nat) : List Char → Option Nat
  | [] => some value
  | c :: rest =>
    match hexDigit? c with
    | some d => if d < base then ofDigits? base (value * base + d) rest else none
    | none => none

/-- Digits without the underscores between them; `none` if an underscore is not between digits, or
there is no digit. -/
def joinDigits? (isDigit : Char → Bool) : List Char → Option (List Char)
  | [] => none
  | [c] => if isDigit c then some [c] else none
  | c :: '_' :: rest => if isDigit c then (joinDigits? isDigit rest).map (c :: ·) else none
  | c :: rest => if isDigit c then (joinDigits? isDigit rest).map (c :: ·) else none

def decimalDigits? (s : List Char) : Option (List Char) := joinDigits? Char.isDigit s

/-- Whether decimal digits start with a zero that is not the only one. -/
def hasLeadingZero : List Char → Bool
  | '0' :: _ :: _ => true
  | _ => false

def magnitude? (base : Nat) (s : List Char) : Option Nat :=
  match joinDigits? (fun c => (hexDigit? c).isSome) s with
  | some digits => ofDigits? base 0 digits
  | none => none

def splitSign : List Char → Option Bool × List Char
  | '+' :: rest => (some false, rest)
  | '-' :: rest => (some true, rest)
  | s => (none, s)

def integer? (s : List Char) : Option Int :=
  let value : Option Int :=
    match s with
    | '0' :: 'x' :: digits => (magnitude? 16 digits).map Int.ofNat
    | '0' :: 'o' :: digits => (magnitude? 8 digits).map Int.ofNat
    | '0' :: 'b' :: digits => (magnitude? 2 digits).map Int.ofNat
    | s =>
      let (sign, digits) := splitSign s
      if hasLeadingZero digits then none
      else (magnitude? 10 digits).map fun n => if sign = some true then -(n : Int) else n
  match value with
  | some n => if -0x8000000000000000 ≤ n && n < 0x8000000000000000 then some n else none
  | none => none

/-- The least number that rounds to more than the largest double. -/
def doubleBound : Nat := Nat.pow 2 1024 - Nat.pow 2 970

def doubleDigits : Nat := 309

/-- Whether a decimal number, given by its digits and the power of ten of the last one, is too
large for a double. Digits after the point do not matter for this. -/
def overflows (digits : List Char) (exponent : Int) : Bool :=
  let significant := digits.dropWhile (· = '0')
  let size : Int := significant.length + exponent
  if significant.isEmpty || size < doubleDigits then false
  else if doubleDigits < size then true
  else
    let whole := significant.take doubleDigits
    let padded := whole ++ List.replicate (doubleDigits - whole.length) '0'
    (ofDigits? 10 0 padded).any (doubleBound ≤ ·)

def maxExponent : Nat := 9999

/-- The number that decimal digits of an exponent stand for; once it is beyond all exponents that
matter, further digits are dropped. -/
def exponentOf (digits : List Char) : Nat :=
  digits.foldl (fun n c => if maxExponent < n then n else n * 10 + (c.toNat - '0'.toNat)) 0

def exponent? (s : List Char) : Option Int :=
  let (sign, digits) := splitSign s
  (decimalDigits? digits).map fun digits =>
    if sign = some true then -(exponentOf digits : Int) else exponentOf digits

/-- Whether a text is a floating point number: a fraction, an exponent or both after a decimal
number, or one of the special values. -/
def isFloat (s : List Char) : Bool :=
  let (_, unsigned) := splitSign s
  if unsigned = ['i', 'n', 'f'] || unsigned = ['n', 'a', 'n'] then true
  else
    let (mantissa, power) := unsigned.span fun c => c ≠ 'e' && c ≠ 'E'
    let (whole, fraction) := mantissa.span (· ≠ '.')
    let fractionDigits : Option (List Char) :=
      if fraction.isEmpty then some [] else decimalDigits? (fraction.drop 1)
    let exponent : Option Int := if power.isEmpty then some 0 else exponent? (power.drop 1)
    if fraction.isEmpty && power.isEmpty then false
    else
      match decimalDigits? whole, fractionDigits, exponent with
      | some whole, some fraction, some exponent =>
        !hasLeadingZero whole && !overflows (whole ++ fraction) (exponent - fraction.length)
      | _, _, _ => false

/-- A number of exactly `width` digits at the start of a text, and what follows it. -/
def fixed? (width : Nat) (s : List Char) : Option (Nat × List Char) :=
  let digits := s.take width
  if digits.length = width && digits.all Char.isDigit then
    (ofDigits? 10 0 digits).map fun n => (n, s.drop width)
  else none

def after? (c : Char) : List Char → Option (List Char)
  | d :: rest => if d = c then some rest else none
  | [] => none

def daysIn (year month : Nat) : Nat :=
  if month = 2 then
    if year % 4 = 0 && (year % 100 ≠ 0 || year % 400 = 0) then 29 else 28
  else if month = 4 || month = 6 || month = 9 || month = 11 then 30
  else 31

def afterDate? (s : List Char) : Option (List Char) := do
  let (year, s) ← fixed? 4 s
  let (month, s) ← fixed? 2 (← after? '-' s)
  let (day, s) ← fixed? 2 (← after? '-' s)
  if 1 ≤ month && month ≤ 12 && 1 ≤ day && day ≤ daysIn year month then some s else none

def afterSeconds? (s : List Char) : Option (List Char) :=
  match s with
  | ':' :: rest => do
    let (second, s) ← fixed? 2 rest
    if 59 < second then none
    else
      match s with
      | '.' :: rest =>
        let (digits, s) := rest.span Char.isDigit
        if digits.isEmpty then none else some s
      | s => some s
  | s => some s

def afterTime? (s : List Char) : Option (List Char) := do
  let (hour, s) ← fixed? 2 s
  let (minute, s) ← fixed? 2 (← after? ':' s)
  if hour ≤ 23 && minute ≤ 59 then afterSeconds? s else none

def isZone (s : List Char) : Bool :=
  match s with
  | [] | ['Z'] | ['z'] => true
  | sign :: rest =>
    if sign = '+' || sign = '-' then
      let parsed : Option (Nat × Nat × List Char) := do
        let (hour, s) ← fixed? 2 rest
        let (minute, s) ← fixed? 2 (← after? ':' s)
        some (hour, minute, s)
      match parsed with
      | some (hour, minute, []) => hour ≤ 24 && minute ≤ 60
      | _ => false
    else false

def isDate (s : List Char) : Bool := afterDate? s = some []

/-- Whether a text is a date, a time of day, or a date and a time with or without a zone. -/
def isDateTime (s : List Char) : Bool :=
  isDate s || afterTime? s = some [] ||
    match afterDate? s with
    | some (mark :: time) =>
      (mark = 'T' || mark = 't' || mark = ' ') && (afterTime? time).any isZone
    | _ => false

end TapeMachine.Toml
