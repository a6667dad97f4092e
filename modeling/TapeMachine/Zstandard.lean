import TapeMachine.Stream.Source
/-!
# Compressed frames

A Zstandard stream is a sequence of frames. A frame has a mark, a header that may declare the size
of its contents, and blocks: stored bytes, or one byte repeated. Frames with another mark can be
skipped. Blocks of compressed bytes are not read here, and writing stores all bytes as they are.
-/

set_option autoImplicit false
set_option relaxedAutoImplicit false

namespace TapeMachine.Zstandard

def mark : List UInt8 := [0x28, 0xB5, 0x2F, 0xFD]

def maxBlock : Nat := 128 * 1024

def maxWindow : Nat := 512 * 1024 * 1024

def littleEndian (width n : Nat) : List UInt8 :=
  match width with
  | 0 => []
  | width + 1 => (n % 256).toUInt8 :: littleEndian width (n / 256)

def ofLittleEndian (bytes : List UInt8) : Nat := bytes.foldr (fun c n => n * 256 + c.toNat) 0

abbrev Rest (s : List UInt8) := { rest : List UInt8 // rest.length < s.length }

/-- What a frame declares about its contents. -/
structure Header where
  size : Option Nat
  /-- The window: how far back the contents may be looked at, and the largest size of a block. -/
  window : Nat
  checksum : Bool
  deriving DecidableEq, Repr

/-- The window of a frame whose window descriptor is given. -/
def windowSize (descriptor : UInt8) : Nat :=
  let base := 1024 * Nat.pow 2 (descriptor.toNat / 8)
  base + base / 8 * (descriptor.toNat % 8)

def readHeader : (s : List UInt8) → Except FrameFault (Header × Rest s)
  | [] => .error .truncated
  | descriptor :: rest =>
    let d := descriptor.toNat
    let single := d / 32 % 2 = 1
    let dictionary := [0, 1, 2, 4].getD (d % 4) 0
    let sizeWidth := if d / 64 = 0 then (if single then 1 else 0) else Nat.pow 2 (d / 64)
    let windowWidth := if single then 0 else 1
    let width := windowWidth + dictionary + sizeWidth
    if d / 8 % 2 = 1 then .error .unsupported
    else if (rest.take width).length < width then .error .truncated
    else if (rest.drop windowWidth).take dictionary |>.any (· ≠ 0) then .error .unsupported
    else
      let declared := ofLittleEndian ((rest.drop (windowWidth + dictionary)).take sizeWidth)
      let size : Option Nat :=
        if sizeWidth = 0 then none
        else if sizeWidth = 2 then some (declared + 256)
        else some declared
      let window := if single then max 1024 (size.getD 0) else windowSize (rest.headD 0)
      if maxWindow < window then .error .unsupported
      else
        .ok (⟨size, window, d / 4 % 2 = 1⟩,
          ⟨rest.drop width, by rw [List.length_drop]; exact Nat.lt_succ_of_le (Nat.sub_le _ _)⟩)

structure Block where
  content : List UInt8
  last : Bool
  deriving DecidableEq, Repr

theorem length_drop_lt_cons (a b c : UInt8) (rest : List UInt8) (n : Nat) :
    (rest.drop n).length < (a :: b :: c :: rest).length := by
  simp only [List.length_drop, List.length_cons]
  omega

def readBlock (limit : Nat) : (s : List UInt8) → Except FrameFault (Block × Rest s)
  | a :: b :: c :: rest =>
    let n := ofLittleEndian [a, b, c]
    let last : Bool := n % 2 = 1
    let kind := n / 2 % 4
    let size := n / 8
    let content := rest.take size
    if kind = 0 then
      if limit < size then .error .unsupported
      else if content.length < size then .error .truncated
      else
        .ok (⟨content, last⟩,
          ⟨rest.drop size, length_drop_lt_cons a b c rest size⟩)
    else if kind = 1 then
      if limit < size then .error .unsupported
      else
        match rest.head? with
        | none => .error .truncated
        | some value =>
          .ok (⟨List.replicate size value, last⟩,
            ⟨rest.drop 1, length_drop_lt_cons a b c rest 1⟩)
    else if kind = 2 && 2 ≤ size && size ≤ limit && content.length < size then .error .truncated
    else .error .unsupported
  | _ => .error .truncated

/-- Where a reader stands in a stream. -/
inductive Place where
  | between
  /-- In a frame, with the number of bytes of it read so far. -/
  | inside (header : Header) (read : Nat)

/-- The source that delivers chunks, given last first, and then ends or fails. -/
def deliver (chunks : List (List UInt8)) (fault : Option Fault) : Source :=
  ⟨chunks.reverse.flatten, fault⟩

/-- Whether a frame may have a number of bytes after a block, which is its last one or not. -/
def Header.admits (h : Header) (size : Nat) (last : Bool) : Bool :=
  h.size.all fun declared => if last then size = declared else size ≤ declared

/-- The source of a stream that is cut off inside a frame. -/
def cutOff (ending : Option Fault) (chunks : List (List UInt8)) : Source :=
  deliver chunks (some (ending.getD (.frame .truncated)))

/-- Reads a stream from a place on. `chunks` holds what was read before, last first, and `ending`
is the fault at the end of the stream. -/
def readFrom (ending : Option Fault) (place : Place) (chunks : List (List UInt8))
    (s : List UInt8) : Source :=
  match place with
  | .between =>
    match s with
    | [] => deliver chunks ending
    | a :: b :: c :: d :: rest =>
      if a.toNat / 16 = 5 && b = 0x2A && c = 0x4D && d = 0x18 then
        let size := ofLittleEndian (rest.take 4)
        if (rest.take (4 + size)).length < 4 + size then cutOff ending chunks
        else readFrom ending .between chunks (rest.drop (4 + size))
      else if [a, b, c, d] ≠ mark then deliver chunks (some (.frame .unmarked))
      else
        match readHeader rest with
        | .error .truncated => cutOff ending chunks
        | .error e => deliver chunks (some (.frame e))
        | .ok (header, ⟨rest, _⟩) => readFrom ending (.inside header 0) chunks rest
    | _ => cutOff ending chunks
  | .inside header before =>
    match readBlock (min maxBlock header.window) s with
    | .error .truncated => cutOff ending chunks
    | .error e => deliver chunks (some (.frame e))
    | .ok (⟨content, last⟩, ⟨rest, _⟩) =>
      let read := before + content.length
      let chunks := content :: chunks
      if !header.admits read last then deliver chunks (some (.frame .sizeMismatch))
      else if !last then readFrom ending (.inside header read) chunks rest
      else if header.checksum then
        if (rest.take 4).length < 4 then cutOff ending chunks
        else readFrom ending .between chunks (rest.drop 4)
      else readFrom ending .between chunks rest
termination_by s.length
decreasing_by
  all_goals grind

def decompress (source : Source) : Source := readFrom source.fault .between [] source.bytes

/-- The blocks that store bytes; the last one is marked. `fuel` bounds the number of blocks. -/
def storedBlocks : (fuel : Nat) → List UInt8 → List UInt8
  | 0, _ => []
  | fuel + 1, bytes =>
    let block := bytes.take maxBlock
    let rest := bytes.drop maxBlock
    let last := if rest.isEmpty then 1 else 0
    littleEndian 3 (block.length * 8 + last) ++ block ++
      (if rest.isEmpty then [] else storedBlocks fuel rest)

/-- A frame that stores bytes and declares their size. -/
def compress (bytes : List UInt8) : List UInt8 :=
  mark ++ [0xE0] ++ littleEndian 8 bytes.length ++ storedBlocks (bytes.length + 1) bytes

end TapeMachine.Zstandard
