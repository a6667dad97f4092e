/-!
# Runes

Bytes as text. A rune is the shortest encoding of one code point: one to four bytes whose first
byte gives the length and, for some values, the range of the second byte. A byte that does not
start a rune counts as a rune of its own, so every byte string has a number of runes.
-/

set_option autoImplicit false
set_option relaxedAutoImplicit false

namespace TapeMachine.Text

def bytes (s : String) : List UInt8 := s.toUTF8.data.toList

namespace Utf8

def within (low high c : UInt8) : Bool := low ≤ c && c ≤ high

def isTail (c : UInt8) : Bool := within 0x80 0xBF c

def tailBits (c : UInt8) : Nat := c.toNat % 64

/-- The code point and length of the rune that starts with `first`; `none` where none starts. -/
def rune? (first : UInt8) (rest : List UInt8) : Option (Nat × Nat) :=
  if first < 0x80 then some (first.toNat, 1)
  else if within 0xC2 0xDF first then
    match rest with
    | b :: _ => if isTail b then some (first.toNat % 32 * 64 + tailBits b, 2) else none
    | _ => none
  else if within 0xE0 0xEF first then
    match rest with
    | b :: c :: _ =>
      let low := if first = 0xE0 then 0xA0 else 0x80
      let high := if first = 0xED then 0x9F else 0xBF
      if within low high b && isTail c then
        some ((first.toNat % 16 * 64 + tailBits b) * 64 + tailBits c, 3)
      else none
    | _ => none
  else if within 0xF0 0xF4 first then
    match rest with
    | b :: c :: d :: _ =>
      let low := if first = 0xF0 then 0x90 else 0x80
      let high := if first = 0xF4 then 0x8F else 0xBF
      if within low high b && isTail c && isTail d then
        some (((first.toNat % 8 * 64 + tailBits b) * 64 + tailBits c) * 64 + tailBits d, 4)
      else none
    | _ => none
  else none

/-- The number of bytes of the first rune; 1 where none starts. -/
def runeLength (first : UInt8) (rest : List UInt8) : Nat :=
  match rune? first rest with
  | some (_, length) => length
  | none => 1

/-- The number of runes, after `skip` more bytes of the current one and `seen` runes before. -/
private def countFrom (seen skip : Nat) : List UInt8 → Nat
  | [] => seen
  | c :: rest =>
    match skip with
    | 0 => countFrom (seen + 1) (runeLength c rest - 1) rest
    | more + 1 => countFrom seen more rest

def runeCount (s : List UInt8) : Nat := countFrom 0 0 s

private theorem countFrom_eq (seen skip : Nat) (s : List UInt8) :
    countFrom seen skip s = seen + runeCount (s.drop skip) := by
  induction s generalizing seen skip with
  | nil => simp [countFrom, runeCount]
  | cons c rest ih =>
      cases skip with
      | zero => simp [countFrom, runeCount, ih, Nat.add_assoc]
      | succ more => simp [countFrom, ih]

@[simp]
theorem runeCount_nil : runeCount [] = 0 := rfl

theorem runeCount_cons (c : UInt8) (rest : List UInt8) :
    runeCount (c :: rest) = runeCount (rest.drop (runeLength c rest - 1)) + 1 := by
  have counted := countFrom_eq 1 (runeLength c rest - 1) rest
  rw [Nat.add_comm] at counted
  exact counted

private def decodeFrom (seen : List Char) (skip : Nat) : List UInt8 → Option (List Char)
  | [] => some seen.reverse
  | c :: rest =>
    match skip with
    | 0 =>
      match rune? c rest with
      | some (code, length) => decodeFrom (Char.ofNat code :: seen) (length - 1) rest
      | none => none
    | more + 1 => decodeFrom seen more rest

/-- The characters of a byte string; `none` if it is not made of runes. -/
def decode? (s : List UInt8) : Option (List Char) := decodeFrom [] 0 s

def isValid (s : List UInt8) : Bool := (decode? s).isSome

end Utf8

end TapeMachine.Text
