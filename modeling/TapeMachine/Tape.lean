/-!
# The tape

A circular row of byte cells with a cursor. Cell arithmetic is modulo 256 and the cursor moves
modulo the number of cells, so that moving right past the last cell arrives at cell 0. The cursor
is in range by construction, hence a tape has at least one cell.
-/

set_option autoImplicit false
set_option relaxedAutoImplicit false

namespace TapeMachine

/-- A row of byte cells with a cursor on one of them. -/
structure Tape where
  cells : Array UInt8
  pointer : Nat
  pointer_lt : pointer < cells.size
  deriving DecidableEq

namespace Tape

def blank (size : Nat) (positive : 0 < size) : Tape :=
  ⟨Array.replicate size 0, 0, by simpa using positive⟩

def ofCells? (cells : List UInt8) (pointer : Nat) : Option Tape :=
  if h : pointer < cells.length then some ⟨cells.toArray, pointer, by simpa using h⟩ else none

def size (t : Tape) : Nat := t.cells.size

def read : Tape → UInt8
  | ⟨cells, pointer, _⟩ => cells[pointer]

def write : Tape → UInt8 → Tape
  | ⟨cells, pointer, h⟩, value => ⟨cells.set pointer value, pointer, by simpa using h⟩

/-- Adds 1 to the current cell; 255 becomes 0. -/
def increment (t : Tape) : Tape :=
  let value := t.read
  t.write (value + 1)

/-- Subtracts 1 from the current cell; 0 becomes 255. -/
def decrement (t : Tape) : Tape :=
  let value := t.read
  t.write (value - 1)

/-- Moves the cursor one cell right, from the last cell to cell 0. -/
def moveRight : Tape → Tape
  | ⟨cells, pointer, h⟩ =>
    ⟨cells, (pointer + 1) % cells.size, Nat.mod_lt _ (Nat.zero_lt_of_lt h)⟩

/-- Moves the cursor one cell left, from cell 0 to the last cell. -/
def moveLeft : Tape → Tape
  | ⟨cells, pointer, h⟩ =>
    ⟨cells, (pointer + cells.size - 1) % cells.size, Nat.mod_lt _ (Nat.zero_lt_of_lt h)⟩

def reset (t : Tape) : Tape :=
  blank t.cells.size (Nat.zero_lt_of_lt t.pointer_lt)

@[simp]
theorem size_write (t : Tape) (value : UInt8) : (t.write value).size = t.size := by
  simp [size, write]

@[simp]
theorem read_write (t : Tape) (value : UInt8) : (t.write value).read = value := by
  simp [read, write]

@[simp]
theorem pointer_write (t : Tape) (value : UInt8) : (t.write value).pointer = t.pointer := rfl

@[simp]
theorem size_moveRight (t : Tape) : t.moveRight.size = t.size := rfl

@[simp]
theorem size_moveLeft (t : Tape) : t.moveLeft.size = t.size := rfl

@[simp]
theorem size_reset (t : Tape) : t.reset.size = t.size := by
  simp [size, reset, blank]

end Tape

end TapeMachine
