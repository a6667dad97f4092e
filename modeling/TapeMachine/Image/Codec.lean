import TapeMachine.Cbor.Conversion
import TapeMachine.Text.Decimal
import TapeMachine.Stream.Source
import TapeMachine.Stream.Sink
import TapeMachine.Image
/-!
# The encoding of images

An image is written as a CBOR map with the keys 1 to 10, in this order: program, program counter,
state, cursor, cells, input, output, the two capacities and the count. The two queues are left out
when they are empty. Reading checks a whole data item before it looks into it, takes keys in any
order, written as numbers or as decimal text, lets the first occurrence of a key count and ignores
unknown keys.
-/

set_option autoImplicit false
set_option relaxedAutoImplicit false

namespace TapeMachine.Image

open TapeMachine.Cbor

/-- A byte field as a data item; an absent one is null. -/
def encodeField : Option (List UInt8) → List UInt8
  | none => encodeNull
  | some content => encodeBytes content

def queueEntry (key : Nat) (content : Option (List UInt8)) : List (Nat × List UInt8) :=
  match content with
  | none | some [] => []
  | some content => [(key, encodeBytes content)]

def entries (img : Image) : List (Nat × List UInt8) :=
  [(1, encodeField img.program), (2, encodeInteger img.pc.toInt), (3, encodeInteger img.state.toInt),
    (4, encodeInteger img.pointer.toInt), (5, encodeField img.cells)] ++
  queueEntry 6 img.input ++ queueEntry 7 img.output ++
  [(8, encodeInteger img.inputSize.toInt), (9, encodeInteger img.outputSize.toInt),
    (10, encodeInteger img.count.toInt)]

def encode (img : Image) : List UInt8 :=
  Head.write .map img.entries.length ++
    (img.entries.map fun entry => Head.write .unsigned entry.1 ++ entry.2).flatten

def encode? : Option Image → List UInt8
  | none => encodeNull
  | some img => img.encode

inductive DecodeError where
  | ended
  | item (fault : Cbor.Fault)
  | misfit (misfit : Misfit)
  | source (fault : TapeMachine.Fault)
  deriving DecidableEq

def DecodeError.report (e : DecodeError) : Report :=
  let cause : Report :=
    match e with
    | .ended => .ofCause "EOF"
    | .item .truncated => .ofCause "unexpected EOF"
    | .item .malformed => .ofCause "cbor: malformed data item"
    | .item .excessive => .ofCause "cbor: data item exceeds limits"
    | .misfit .mistyped => .ofCause "cbor: data item has the wrong type"
    | .misfit .invalid => .ofCause "cbor: invalid data item"
    | .source fault => fault.report
  cause.within "decode image"

/-- A signed 64 bit word read from an item; 0 for a null item. -/
def word (item : Item) : Except Misfit Int64 :=
  match item.toInteger (-0x8000000000000000) 0x7FFFFFFFFFFFFFFF with
  | .error e => .error e
  | .ok n => .ok (Int64.ofInt (n.getD 0))

/-- Sets the field with the given key from an item; `none` if there is no such field. -/
def setField? (img : Image) (key : Nat) (item : Item) : Option (Except Misfit Image) :=
  match key with
  | 1 => some (item.toBytes.map fun content => { img with program := content })
  | 2 => some ((word item).map fun n => { img with pc := n })
  | 3 => some ((word item).map fun n => { img with state := n })
  | 4 => some ((word item).map fun n => { img with pointer := n })
  | 5 => some (item.toBytes.map fun content => { img with cells := content })
  | 6 => some (item.toBytes.map fun content => { img with input := content })
  | 7 => some (item.toBytes.map fun content => { img with output := content })
  | 8 => some ((word item).map fun n => { img with inputSize := n })
  | 9 => some ((word item).map fun n => { img with outputSize := n })
  | 10 => some ((word item).map fun n => { img with count := n })
  | _ => none

def key (item : Item) : Except Misfit (Option Nat) :=
  match item with
  | .unsigned n => .ok (some n)
  | .negative n => if n < 0x8000000000000000 then .ok none else .error .mistyped
  | .text chunks =>
    if chunks.all Text.Utf8.isValid then
      .ok ((List.range 11).find? fun n => Text.decimal n = chunks.flatten)
    else .error .invalid
  | _ => .error .mistyped

/-- An image as far as it has been read. -/
structure Draft where
  image : Image
  seen : List Nat
  /-- The first misfit, if any. -/
  misfit : Option Misfit

namespace Draft

/-- Notes a misfit; only the first one counts. -/
def note (d : Draft) (m : Misfit) : Draft := { d with misfit := d.misfit.or (some m) }

def read (d : Draft) (k value : Item) : Draft :=
  match key k with
  | .error m => d.note m
  | .ok none => d
  | .ok (some n) =>
    if d.seen.contains n then d
    else
      match d.image.setField? n value with
      | none => d
      | some (.ok image) => { d with image := image, seen := n :: d.seen }
      | some (.error m) => { d with seen := n :: d.seen }.note m

/-- Reads entries, given as keys and values in turn. -/
def readAll (d : Draft) : List Item → Draft
  | k :: value :: rest => (d.read k value).readAll rest
  | _ => d

end Draft

def ofItem (item : Item) : Except Misfit Image :=
  match item.bare with
  | .error m => .error m
  | .ok (.item (.map entries)) =>
    let draft := Draft.readAll ⟨blank, [], none⟩ entries
    match draft.misfit with
    | some m => .error m
    | none => .ok draft.image
  | .ok (.item (.simple n)) => if n = 22 || n = 23 then .ok blank else .error .mistyped
  | .ok (.item (.text chunks)) => .error (Item.textMisfit chunks)
  | .ok _ => .error .mistyped

/-- Reads an image from the first data item of a source. -/
def decode (source : Source) : Except DecodeError Image :=
  match source.bytes, source.fault with
  | [], none => .error .ended
  | [], some fault => .error (.source fault)
  | bytes, fault =>
    match Item.read bytes with
    | .ok (item, _) =>
      match ofItem item with
      | .ok img => .ok img
      | .error m => .error (.misfit m)
    | .error .truncated =>
      match fault with
      | none => .error (.item .truncated)
      | some fault => .error (.source fault)
    | .error e => .error (.item e)

structure EncodeError where
  fault : TapeMachine.Fault
  deriving DecidableEq

def EncodeError.report (e : EncodeError) : Report := e.fault.report.within "encode image"

def writeTo (img : Option Image) (sink : Sink) : Sink × Option EncodeError :=
  match sink.write (encode? img) with
  | (sink, _, fault) => (sink, fault.map (⟨·⟩))

end TapeMachine.Image
