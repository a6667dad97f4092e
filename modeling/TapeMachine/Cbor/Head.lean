/-!
# Heads of data items

Every CBOR data item starts with a head: a major type in the upper three bits of the first byte,
and an argument in its lower five bits or in the one, two, four or eight bytes that follow, most
significant byte first. Writing a head takes the shortest form; reading accepts every form.
-/

set_option autoImplicit false
set_option relaxedAutoImplicit false

namespace TapeMachine.Cbor

/-- Why bytes are not a data item. -/
inductive Fault where
  | truncated
  | malformed
  | excessive
  deriving DecidableEq, Repr

inductive Major where
  | unsigned
  | negative
  | bytes
  | text
  | array
  | map
  | tag
  | simple
  deriving DecidableEq, Repr

namespace Major

def code : Major → Nat
  | .unsigned => 0
  | .negative => 1
  | .bytes => 2
  | .text => 3
  | .array => 4
  | .map => 5
  | .tag => 6
  | .simple => 7

def ofByte (first : UInt8) : Major :=
  match first.toNat / 32 with
  | 0 => .unsigned
  | 1 => .negative
  | 2 => .bytes
  | 3 => .text
  | 4 => .array
  | 5 => .map
  | 6 => .tag
  | _ => .simple

end Major

def bigEndian (width n : Nat) : List UInt8 :=
  match width with
  | 0 => []
  | width + 1 => bigEndian width (n / 256) ++ [(n % 256).toUInt8]

def ofBigEndian (bytes : List UInt8) : Nat := bytes.foldl (fun n c => n * 256 + c.toNat) 0

/-- The argument of a head. -/
inductive Argument where
  /-- A number written in the first byte, or in `width` bytes after it. -/
  | number (width value : Nat)
  /-- No number: the item goes on to a break mark. -/
  | indefinite
  deriving DecidableEq, Repr

structure Head where
  major : Major
  argument : Argument
  deriving DecidableEq, Repr

/-- What is left after at least one byte has been read. -/
abbrev Rest (s : List UInt8) := { rest : List UInt8 // rest.length < s.length }

/-- What is left after any number of bytes have been read. -/
abbrev Within (s : List UInt8) := { rest : List UInt8 // rest.length ≤ s.length }

def Rest.ofWithin {s t : List UInt8} (w : Within t) (h : t.length < s.length) : Rest s :=
  ⟨w.val, Nat.lt_of_le_of_lt w.property h⟩

def Rest.ofRest {s t : List UInt8} (r : Rest t) (h : t.length < s.length) : Rest s :=
  ⟨r.val, Nat.lt_trans r.property h⟩

def breakMark : UInt8 := 0xFF

namespace Head

/-- Writes a head in the shortest form. -/
def write (major : Major) (n : Nat) : List UInt8 :=
  let first (info : Nat) : UInt8 := (major.code * 32 + info).toUInt8
  if n < 24 then [first n]
  else if n < 0x100 then first 24 :: bigEndian 1 n
  else if n < 0x10000 then first 25 :: bigEndian 2 n
  else if n < 0x100000000 then first 26 :: bigEndian 4 n
  else first 27 :: bigEndian 8 n

def mayBeIndefinite : Major → Bool
  | .bytes | .text | .array | .map => true
  | _ => false

/-- Reads a head. A simple value in a byte of its own is at least 32; a break mark is no head. -/
def read : (s : List UInt8) → Except Fault (Head × Rest s)
  | [] => .error .truncated
  | first :: rest =>
    let major := Major.ofByte first
    let info := first.toNat % 32
    if info < 24 then .ok (⟨major, .number 0 info⟩, ⟨rest, Nat.lt_succ_self _⟩)
    else if info < 28 then
      let width := Nat.pow 2 (info - 24)
      let digits := rest.take width
      if digits.length < width then .error .truncated
      else
        let value := ofBigEndian digits
        if major = .simple && width = 1 && value < 32 then .error .malformed
        else
          .ok (⟨major, .number width value⟩,
            ⟨rest.drop width, by rw [List.length_drop]; exact Nat.lt_succ_of_le (Nat.sub_le _ _)⟩)
    else if info = 31 && mayBeIndefinite major then
      .ok (⟨major, .indefinite⟩, ⟨rest, Nat.lt_succ_self _⟩)
    else .error .malformed

end Head

end TapeMachine.Cbor
