import TapeMachine.Text.Printable
/-!
# Quoted text

Text between double quotes on one line. Printable characters other than the quote and the
backslash stand for themselves; the usual control characters have a one-letter escape; all others
are written by their code point in two, four or eight hexadecimal digits.
-/

set_option autoImplicit false
set_option relaxedAutoImplicit false

namespace TapeMachine.Text

def hex (width n : Nat) : String :=
  let digits := Nat.toDigits 16 n
  String.ofList (List.replicate (width - digits.length) '0' ++ digits)

/-- A character as it is written between quotes. -/
def quoteChar (c : Char) : String :=
  if c = '"' then "\\\""
  else if c = '\\' then "\\\\"
  else if isPrintable c then c.toString
  else
    let n := c.toNat
    if n = 7 then "\\a"
    else if n = 8 then "\\b"
    else if n = 12 then "\\f"
    else if n = 10 then "\\n"
    else if n = 13 then "\\r"
    else if n = 9 then "\\t"
    else if n = 11 then "\\v"
    else if n < 0x20 || n = 0x7F then "\\x" ++ hex 2 n
    else if n < 0x10000 then "\\u" ++ hex 4 n
    else "\\U" ++ hex 8 n

def quote (s : String) : String :=
  "\"" ++ String.join (s.toList.map quoteChar) ++ "\""

end TapeMachine.Text
