import TapeMachine.Cbor.Head
/-!
# Data items

The reader of CBOR data items. It reads one whole item and checks, in the order of the bytes, that
it is well formed and within the limits: at most 131072 elements of an array or pairs of a map,
and at most 32 levels of nesting, where an array, a map and a tag directly inside another tag are
a level each.
-/

set_option autoImplicit false
set_option relaxedAutoImplicit false

namespace TapeMachine.Cbor

/-- A data item. -/
inductive Item where
  /-- The number `n`. -/
  | unsigned (n : Nat)
  /-- The number `-1 - n`. -/
  | negative (n : Nat)
  | bytes (content : List UInt8)
  /-- A text string, as the chunks it was written in. -/
  | text (chunks : List (List UInt8))
  | array (elements : List Item)
  /-- A map, as keys and values in turn. -/
  | map (entries : List Item)
  | tag (number : Nat) (content : Item)
  | simple (n : Nat)
  | float (bits : Nat)

/-- The largest number of elements of an array, and of pairs of a map. -/
def maxElements : Nat := 131072

def maxDepth : Nat := 32

def readContent (length : Nat) (s : List UInt8) : Except Fault (List UInt8 × Within s) :=
  let content := s.take length
  if 0x8000000000000000 ≤ length then .error .excessive
  else if content.length < length then .error .truncated
  else .ok (content, ⟨s.drop length, by simp⟩)

/-- Reads the chunks of an indefinite string up to the break mark; `chunks` holds those read
before, last first. Every chunk is a definite string of the same major type. -/
def readChunks (major : Major) (chunks : List (List UInt8)) (start s : List UInt8)
    (bound : s.length ≤ start.length) : Except Fault (List (List UInt8) × Within start) :=
  match s, bound with
  | [], _ => .error .truncated
  | first :: after, bound =>
    if first = breakMark then .ok (chunks.reverse, ⟨after, Nat.le_of_succ_le bound⟩)
    else if Major.ofByte first ≠ major then .error .malformed
    else
      match Head.read (first :: after) with
      | .error e => .error e
      | .ok (⟨_, .indefinite⟩, _) => .error .malformed
      | .ok (⟨_, .number _ length⟩, ⟨rest, shorter⟩) =>
        match readContent length rest with
        | .error e => .error e
        | .ok (chunk, ⟨rest, notLonger⟩) =>
          readChunks major (chunk :: chunks) start rest (by omega)
termination_by s.length
decreasing_by
  simp only [List.length_cons] at *
  omega

def readString (major : Major) (argument : Argument) (s : List UInt8) :
    Except Fault (List (List UInt8) × Within s) :=
  match argument with
  | .indefinite => readChunks major [] s s (Nat.le_refl _)
  | .number _ length =>
    match readContent length s with
    | .error e => .error e
    | .ok (chunk, rest) => .ok ([chunk], rest)

mutual

/-- Reads an item with `depth` levels of nesting left. -/
def readItem (depth : Nat) (s : List UInt8) : Except Fault (Item × Rest s) :=
  match Head.read s with
  | .error e => .error e
  | .ok (⟨major, argument⟩, ⟨rest, shorter⟩) =>
    match major, argument with
    | .bytes, argument =>
      match readString .bytes argument rest with
      | .error e => .error e
      | .ok (chunks, rest) => .ok (.bytes chunks.flatten, .ofWithin rest shorter)
    | .text, argument =>
      match readString .text argument rest with
      | .error e => .error e
      | .ok (chunks, rest) => .ok (.text chunks, .ofWithin rest shorter)
    | .array, argument =>
      match readMembers depth argument 1 rest with
      | .error e => .error e
      | .ok (elements, rest) => .ok (.array elements, .ofWithin rest shorter)
    | .map, argument =>
      match readMembers depth argument 2 rest with
      | .error e => .error e
      | .ok (entries, rest) => .ok (.map entries, .ofWithin rest shorter)
    | .unsigned, .number _ n => .ok (.unsigned n, ⟨rest, shorter⟩)
    | .negative, .number _ n => .ok (.negative n, ⟨rest, shorter⟩)
    | .tag, .number _ n =>
      match readTagged depth rest with
      | .error e => .error e
      | .ok (content, rest) => .ok (.tag n content, .ofRest rest shorter)
    | .simple, .number width n =>
      .ok (if width ≤ 1 then .simple n else .float n, ⟨rest, shorter⟩)
    | _, .indefinite => .error .malformed
termination_by (s.length, 0)

/-- Reads the content of a tag; a tag as content is a level of nesting. -/
def readTagged (depth : Nat) (s : List UInt8) : Except Fault (Item × Rest s) :=
  match s with
  | [] => .error .truncated
  | first :: after =>
    if Major.ofByte first = .tag then
      match Head.read (first :: after) with
      | .error e => .error e
      | .ok (⟨_, .indefinite⟩, _) => .error .malformed
      | .ok (⟨_, .number _ n⟩, ⟨rest, shorter⟩) =>
        match depth with
        | 0 => .error .excessive
        | depth + 1 =>
          match readTagged depth rest with
          | .error e => .error e
          | .ok (content, rest) => .ok (.tag n content, .ofRest rest shorter)
    else readItem depth (first :: after)
termination_by (s.length, 1)

/-- Reads the items of an array (`arity` 1) or a map (`arity` 2), which are one level deeper. -/
def readMembers (depth : Nat) (argument : Argument) (arity : Nat) (s : List UInt8) :
    Except Fault (List Item × Within s) :=
  match depth with
  | 0 => .error .excessive
  | depth + 1 =>
    match argument with
    | .indefinite => readUntilBreak depth arity [] 0 s s (Nat.le_refl _)
    | .number _ n =>
      if maxElements < n then .error .excessive
      else readItems depth [] (n * arity) s s (Nat.le_refl _)
termination_by (s.length, 3)

def readItems (depth : Nat) (items : List Item) (count : Nat) (start s : List UInt8)
    (bound : s.length ≤ start.length) : Except Fault (List Item × Within start) :=
  match count with
  | 0 => .ok (items.reverse, ⟨s, bound⟩)
  | count + 1 =>
    match readItem depth s with
    | .error e => .error e
    | .ok (item, ⟨rest, shorter⟩) =>
      readItems depth (item :: items) count start rest (by omega)
termination_by (s.length, 2)

/-- Reads items up to the break mark; `items` holds the `seen` items read before, last first. -/
def readUntilBreak (depth arity : Nat) (items : List Item) (seen : Nat) (start s : List UInt8)
    (bound : s.length ≤ start.length) : Except Fault (List Item × Within start) :=
  match s, bound with
  | [], _ => .error .truncated
  | first :: after, bound =>
    if first = breakMark then
      if seen % arity ≠ 0 then .error .malformed
      else .ok (items.reverse, ⟨after, Nat.le_of_succ_le bound⟩)
    else
      match readItem depth (first :: after) with
      | .error e => .error e
      | .ok (item, ⟨rest, shorter⟩) =>
        if maxElements < (seen + 1) / arity then .error .excessive
        else readUntilBreak depth arity (item :: items) (seen + 1) start rest (by omega)
termination_by (s.length, 2)

end

def Item.read (s : List UInt8) : Except Fault (Item × Rest s) := readItem maxDepth s

end TapeMachine.Cbor
