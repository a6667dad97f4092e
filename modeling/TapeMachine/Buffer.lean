/-!
# Bounded byte queues

A queue of bytes in an array of fixed size, between a read cursor and a write cursor. When the
write cursor reaches the end of the array, the unread bytes are moved back to its start; bytes
outside the cursors are left as they are and never read. The view of a queue is `unread`, the
bytes still to be read in the order in which they were appended.
-/

set_option autoImplicit false
set_option relaxedAutoImplicit false

namespace TapeMachine

/-- A byte queue of fixed capacity. -/
structure Buffer where
  data : Array UInt8
  /-- The index of the next byte to read. -/
  start : Nat
  /-- The index at which the next byte is stored. -/
  stop : Nat
  start_le : start ≤ stop
  stop_le : stop ≤ data.size
  deriving DecidableEq

namespace Buffer

/-- A refused append: the queue as it was and how many bytes did not fit. -/
structure Full where
  capacity : Nat
  unread : Nat
  /-- The number of bytes that were not appended. -/
  refused : Nat
  deriving DecidableEq

def empty (capacity : Nat) : Buffer :=
  ⟨Array.replicate capacity 0, 0, 0, Nat.le_refl 0, Nat.zero_le _⟩

def capacity (b : Buffer) : Nat := b.data.size

def length (b : Buffer) : Nat := b.stop - b.start

def hasUnread (b : Buffer) : Bool := b.start < b.stop

/-- The bytes still to be read, oldest first. -/
def unread (b : Buffer) : List UInt8 := (b.data.extract b.start b.stop).toList

def full (b : Buffer) (refused : Nat) : Full := ⟨b.capacity, b.length, refused⟩

def reset (b : Buffer) : Buffer := ⟨b.data, 0, 0, Nat.le_refl 0, Nat.zero_le _⟩

def store (data : Array UInt8) (index : Nat) : List UInt8 → Array UInt8
  | [] => data
  | c :: rest => store (data.setIfInBounds index c) (index + 1) rest

@[simp]
theorem size_store (data : Array UInt8) (index : Nat) (bytes : List UInt8) :
    (store data index bytes).size = data.size := by
  induction bytes generalizing data index with
  | nil => rfl
  | cons c rest ih => simp [store, ih]

theorem length_le_capacity (b : Buffer) : b.length ≤ b.capacity :=
  Nat.le_trans (Nat.sub_le _ _) b.stop_le

@[simp]
theorem length_unread (b : Buffer) : b.unread.length = b.length := by
  have := b.stop_le
  simp only [unread, length, Array.length_toList, Array.size_extract]
  omega

def compact (b : Buffer) : Buffer :=
  ⟨store b.data 0 b.unread, 0, b.length, Nat.zero_le _, by
    rw [size_store]; exact b.length_le_capacity⟩

@[simp]
theorem capacity_compact (b : Buffer) : b.compact.capacity = b.capacity := by
  simp [capacity, compact]

@[simp]
theorem length_compact (b : Buffer) : b.compact.length = b.length := by
  simp [length, compact]

/-- The queue with room for `count` more bytes after the write cursor, if moving the unread bytes
can make that room. -/
def makeRoom (b : Buffer) (count : Nat) : Buffer :=
  if b.capacity - b.stop < count then b.compact else b

@[simp]
theorem capacity_makeRoom (b : Buffer) (count : Nat) :
    (b.makeRoom count).capacity = b.capacity := by
  unfold makeRoom
  split <;> simp

@[simp]
theorem length_makeRoom (b : Buffer) (count : Nat) : (b.makeRoom count).length = b.length := by
  unfold makeRoom
  split <;> simp

theorem stop_makeRoom_lt (b : Buffer) (h : b.length < b.capacity) :
    (b.makeRoom 1).stop < (b.makeRoom 1).data.size := by
  unfold makeRoom
  split
  · simpa [compact, capacity] using h
  · simp only [capacity] at *
    omega

def push (b : Buffer) (c : UInt8) (h : b.length < b.capacity) : Buffer :=
  have room := b.stop_makeRoom_lt h
  match b.makeRoom 1, room with
  | ⟨data, start, stop, start_le, _⟩, room =>
    ⟨data.set stop c, start, stop + 1, Nat.le_succ_of_le start_le, by
      simp only [Array.size_set]
      exact room⟩

def append (b : Buffer) (c : UInt8) : Except Full Buffer :=
  if h : b.length < b.capacity then .ok (b.push c h) else .error (b.full 1)

/-- Stores as many of the bytes as fit after the write cursor. -/
def extend (b : Buffer) (bytes : List UInt8) : Buffer :=
  let accepted := bytes.take (b.capacity - b.stop)
  ⟨store b.data b.stop accepted, b.start, b.stop + accepted.length,
    Nat.le_trans b.start_le (Nat.le_add_right _ _), by
      have := b.stop_le
      simp only [size_store, accepted, List.length_take, capacity]
      omega⟩

/-- Appends all bytes, or none if they do not all fit. -/
def appendAll (b : Buffer) (bytes : List UInt8) : Except Full Buffer :=
  if b.capacity - b.length < bytes.length then .error (b.full bytes.length)
  else .ok ((b.makeRoom bytes.length).extend bytes)

/-- Appends as many bytes as fit. Answers the queue, the number of bytes appended and, if some
were left over, the refusal. -/
def write (b : Buffer) (bytes : List UInt8) : Buffer × Nat × Option Full :=
  let roomy := b.makeRoom bytes.length
  let accepted := min bytes.length (roomy.capacity - roomy.stop)
  let written := roomy.extend bytes
  if accepted < bytes.length then
    (written, accepted, some (written.full (bytes.length - accepted)))
  else (written, accepted, none)

def next? (b : Buffer) : Option (UInt8 × Buffer) :=
  if h : b.start < b.stop then
    have inside : b.start < b.data.size := Nat.lt_of_lt_of_le h b.stop_le
    some (b.data[b.start], ⟨b.data, b.start + 1, b.stop, h, b.stop_le⟩)
  else none

def readByte? (b : Buffer) : Option (UInt8 × Buffer) := b.next?

def take (b : Buffer) (count : Nat) : List UInt8 × Buffer :=
  (b.unread.take count,
    ⟨b.data, min (b.start + count) b.stop, b.stop, Nat.min_le_right _ _, b.stop_le⟩)

/-- Takes up to `count` unread bytes; an empty queue is at its end unless nothing is asked for. -/
def read? (b : Buffer) (count : Nat) : Option (List UInt8 × Buffer) :=
  if b.hasUnread || count == 0 then some (b.take count) else none

def drain (b : Buffer) : List UInt8 × Buffer :=
  (b.unread, ⟨b.data, b.stop, b.stop, Nat.le_refl _, b.stop_le⟩)

/-- Replaces everything unread by the given bytes, as far as they fit. -/
def refill (b : Buffer) (bytes : List UInt8) : Buffer := b.reset.extend bytes

@[simp]
theorem length_take (b : Buffer) (count : Nat) :
    (b.take count).2.length = b.length - count := by
  have := b.start_le
  simp only [take, length]
  omega

end Buffer

end TapeMachine
