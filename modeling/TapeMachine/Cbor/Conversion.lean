import TapeMachine.Cbor.Item
import TapeMachine.Text.Utf8
/-!
# Conversion of data items

Values as data items, and data items as the values wanted in their place: integers in a signed 64
bit word, and byte strings. Tags are looked through, except that the tags of the standard must
stand on the type of content they are for; a null or undefined item stands for an absent value.
-/

set_option autoImplicit false
set_option relaxedAutoImplicit false

namespace TapeMachine.Cbor

def encodeInteger (i : Int) : List UInt8 :=
  if 0 ≤ i then Head.write .unsigned i.toNat else Head.write .negative (-1 - i).toNat

def encodeBytes (content : List UInt8) : List UInt8 := Head.write .bytes content.length ++ content

def encodeNull : List UInt8 := [0xF6]

/-- Why an item does not have the value wanted. -/
inductive Misfit where
  /-- It has another type, or its number is out of range. -/
  | mistyped
  /-- Its tag or its text breaks the rules of the standard. -/
  | invalid
  deriving DecidableEq, Repr

/-- An item with its tags looked through. -/
inductive Bare where
  /-- A big number: its bytes, most significant first, and whether it is `-1` minus their
  value. -/
  | bignum (below : Bool) (content : List UInt8)
  /-- Any other item; not a tag. -/
  | item (item : Item)

namespace Item

def isText : Item → Bool
  | .text _ => true
  | _ => false

def isNumber : Item → Bool
  | .unsigned _ | .negative _ | .float _ => true
  | _ => false

/-- Looks through the tags of an item. Tag 0 stands on text, tag 1 on a number, and tags 2 and 3
on a byte string. -/
def bare : Item → Except Misfit Bare
  | .tag number content =>
    if number = 0 then if content.isText then content.bare else .error .invalid
    else if number = 1 then if content.isNumber then content.bare else .error .invalid
    else if number = 2 || number = 3 then
      match content with
      | .bytes b => .ok (.bignum (number = 3) b)
      | _ => .error .invalid
    else content.bare
  | item => .ok (.item item)

/-- The misfit of a text string where no text is wanted: every chunk has to be valid by itself. -/
def textMisfit (chunks : List (List UInt8)) : Misfit :=
  if chunks.all Text.Utf8.isValid then .mistyped else .invalid

def inRange (low high value : Int) : Except Misfit (Option Int) :=
  if low ≤ value && value ≤ high then .ok (some value) else .error .mistyped

/-- The integer between two bounds that an item stands for; `none` for a null item. A simple
value stands for its number. -/
def toInteger (low high : Int) (item : Item) : Except Misfit (Option Int) :=
  match item.bare with
  | .error e => .error e
  | .ok (.bignum below content) =>
    let n : Int := ofBigEndian content
    inRange low high (if below then -1 - n else n)
  | .ok (.item (.unsigned n)) => inRange low high n
  | .ok (.item (.negative n)) => inRange low high (-1 - n)
  | .ok (.item (.simple n)) =>
    if n = 20 || n = 21 then .error .mistyped
    else if n = 22 || n = 23 then .ok none
    else inRange low high n
  | .ok (.item (.text chunks)) => .error (textMisfit chunks)
  | .ok (.item _) => .error .mistyped

/-- The bytes that the elements of an array stand for; `before` holds those read already, last
first. -/
def elementsToBytes (before : List UInt8) : List Item → Except Misfit (List UInt8)
  | [] => .ok before.reverse
  | element :: rest =>
    match element.toInteger 0 255 with
    | .error e => .error e
    | .ok n => elementsToBytes ((n.getD 0).toNat.toUInt8 :: before) rest

/-- The byte string that an item stands for; `none` for a null item. An array stands for the bytes
that its elements are. -/
def toBytes (item : Item) : Except Misfit (Option (List UInt8)) :=
  match item.bare with
  | .error e => .error e
  | .ok (.bignum _ content) => .ok (some content)
  | .ok (.item (.bytes content)) => .ok (some content)
  | .ok (.item (.array elements)) =>
    match elementsToBytes [] elements with
    | .error e => .error e
    | .ok content => .ok (some content)
  | .ok (.item (.simple n)) => if n = 22 || n = 23 then .ok none else .error .mistyped
  | .ok (.item (.text chunks)) => .error (textMisfit chunks)
  | .ok (.item _) => .error .mistyped

end Item

end TapeMachine.Cbor
