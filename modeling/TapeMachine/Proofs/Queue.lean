import TapeMachine.Buffer
/-!
# Queues as lists

The bytes still to be read say everything about a queue but its capacity. Each operation is described
by what it does to them; where they stand in the storage, and what stands around them, does not
matter.
-/

set_option autoImplicit false
set_option relaxedAutoImplicit false

namespace TapeMachine.Buffer

private theorem unread_eq (b : Buffer) :
    b.unread = (b.data.toList.drop b.start).take (b.stop - b.start) := by
  rw [unread, Array.toList_extract, List.extract_eq_take_drop]

theorem toList_store (data : Array UInt8) (index : Nat) (bytes : List UInt8)
    (fits : index + bytes.length ≤ data.size) :
    (store data index bytes).toList =
      data.toList.take index ++ bytes ++ data.toList.drop (index + bytes.length) := by
  induction bytes generalizing data index with
  | nil => simp [store]
  | cons c rest ih =>
      simp only [List.length_cons] at fits
      have inside : index < data.toList.length := by
        rw [Array.length_toList]
        omega
      have split : data.toList.set index c =
          data.toList.take index ++ c :: data.toList.drop (index + 1) := by
        rw [List.set_eq_take_append_cons_drop, if_pos inside]
      have front : (data.toList.take index).length = index := by
        rw [List.length_take]
        omega
      rw [store, ih _ _ (by simp only [Array.size_setIfInBounds]; omega),
        Array.toList_setIfInBounds, split]
      have head : (data.toList.take index ++ c :: data.toList.drop (index + 1)).take (index + 1) =
          data.toList.take index ++ [c] := by
        rw [List.take_append, front, List.take_of_length_le (by omega)]
        simp
      have tail : (data.toList.take index ++ c :: data.toList.drop (index + 1)).drop
          (index + 1 + rest.length) = data.toList.drop (index + (c :: rest).length) := by
        rw [List.drop_append, front, List.drop_of_length_le (by omega)]
        have shift : index + 1 + rest.length - index = rest.length + 1 := by omega
        rw [shift, List.drop_succ_cons, List.drop_drop, List.nil_append]
        congr 1
        simp only [List.length_cons]
        omega
      rw [head, tail]
      simp

@[simp]
theorem unread_empty (capacity : Nat) : (empty capacity).unread = [] := by
  simp [unread_eq, empty]

@[simp]
theorem unread_reset (b : Buffer) : b.reset.unread = [] := by
  simp [unread_eq, reset]

@[simp]
theorem capacity_empty (capacity : Nat) : (empty capacity).capacity = capacity := by
  simp [Buffer.capacity, empty]

@[simp]
theorem capacity_reset (b : Buffer) : b.reset.capacity = b.capacity := rfl

theorem unread_eq_nil_iff (b : Buffer) : b.unread = [] ↔ b.length = 0 := by
  rw [← List.length_eq_zero_iff, length_unread]

theorem hasUnread_iff (b : Buffer) : b.hasUnread = true ↔ b.unread ≠ [] := by
  rw [ne_eq, unread_eq_nil_iff, length, hasUnread, decide_eq_true_eq]
  omega

@[simp]
theorem unread_compact (b : Buffer) : b.compact.unread = b.unread := by
  have fits : 0 + b.unread.length ≤ b.data.size := by
    have := b.length_le_capacity
    rw [length_unread, Nat.zero_add]
    exact this
  rw [unread_eq b.compact]
  simp only [compact, toList_store _ _ _ fits, List.drop_zero, List.take_zero, List.nil_append,
    Nat.sub_zero]
  rw [← length_unread, List.take_left]

@[simp]
theorem unread_makeRoom (b : Buffer) (count : Nat) : (b.makeRoom count).unread = b.unread := by
  unfold makeRoom
  split
  · exact b.unread_compact
  · rfl

private theorem min_room_makeRoom (b : Buffer) (count : Nat) :
    min count ((b.makeRoom count).capacity - (b.makeRoom count).stop) =
      min count (b.capacity - b.length) := by
  have stop_le : b.stop ≤ b.capacity := b.stop_le
  have start_le := b.start_le
  rw [capacity_makeRoom]
  unfold makeRoom
  split
  · rfl
  · simp only [length]
    omega

@[simp]
theorem capacity_extend (b : Buffer) (bytes : List UInt8) :
    (b.extend bytes).capacity = b.capacity := by
  simp [Buffer.capacity, extend]

@[simp]
theorem unread_extend (b : Buffer) (bytes : List UInt8) :
    (b.extend bytes).unread = b.unread ++ bytes.take (b.capacity - b.stop) := by
  have start_le := b.start_le
  have stop_le := b.stop_le
  generalize taken : bytes.take (b.capacity - b.stop) = accepted
  have fits : b.stop + accepted.length ≤ b.data.size := by
    rw [← taken, List.length_take, capacity]
    omega
  rw [unread_eq, unread_eq]
  simp only [extend, taken, toList_store _ _ _ fits]
  rw [List.append_assoc, List.drop_append_of_le_length
    (by rw [List.length_take, Array.length_toList]; omega), List.drop_take, ← List.append_assoc]
  apply List.take_left'
  rw [List.length_append, List.length_take, List.length_drop, Array.length_toList]
  omega

private theorem push_eq_extend (b : Buffer) (c : UInt8) (room : b.length < b.capacity) :
    b.push c room = (b.makeRoom 1).extend [c] := by
  have inside := b.stop_makeRoom_lt room
  have all : [c].take ((b.makeRoom 1).capacity - (b.makeRoom 1).stop) = [c] := by
    apply List.take_of_length_le
    simp only [List.length_cons, List.length_nil, Buffer.capacity]
    omega
  unfold push extend
  simp only [all, store, List.length_cons, List.length_nil]
  simp [Array.setIfInBounds, inside]

@[simp]
theorem unread_push (b : Buffer) (c : UInt8) (room : b.length < b.capacity) :
    (b.push c room).unread = b.unread ++ [c] := by
  have inside := b.stop_makeRoom_lt room
  rw [push_eq_extend, unread_extend, unread_makeRoom, List.take_of_length_le]
  simp only [List.length_cons, List.length_nil, Buffer.capacity]
  omega

@[simp]
theorem capacity_push (b : Buffer) (c : UInt8) (room : b.length < b.capacity) :
    (b.push c room).capacity = b.capacity := by
  rw [push_eq_extend, capacity_extend, capacity_makeRoom]

theorem append_of_room {b : Buffer} (c : UInt8) (room : b.length < b.capacity) :
    ∃ b', b.append c = .ok b' ∧ b'.unread = b.unread ++ [c] ∧ b'.capacity = b.capacity :=
  ⟨b.push c room, by rw [append, dif_pos room], b.unread_push c room, b.capacity_push c room⟩

theorem append_of_full {b : Buffer} (c : UInt8) (full : b.capacity ≤ b.length) :
    b.append c = .error (b.full 1) := by
  rw [append, dif_neg (Nat.not_lt.mpr full)]

theorem next?_of_nil {b : Buffer} (empty : b.unread = []) : b.next? = none := by
  have none_left : b.length = 0 := b.unread_eq_nil_iff.mp empty
  have start_le := b.start_le
  unfold next?
  split
  · simp only [length] at none_left
    omega
  · rfl

theorem next?_of_cons {b : Buffer} {c : UInt8} {rest : List UInt8} (first : b.unread = c :: rest) :
    ∃ b', b.next? = some (c, b') ∧ b'.unread = rest ∧ b'.capacity = b.capacity := by
  have start_le := b.start_le
  have stop_le := b.stop_le
  have some_left : b.length = rest.length + 1 := by
    rw [← length_unread, first, List.length_cons]
  have before : b.start < b.stop := by
    simp only [length] at some_left
    omega
  have inside : b.start < b.data.toList.length := by
    rw [Array.length_toList]
    omega
  have shape : b.unread = b.data.toList[b.start] ::
      (b.data.toList.drop (b.start + 1)).take (b.stop - (b.start + 1)) := by
    have size : b.stop - b.start = b.stop - (b.start + 1) + 1 := by omega
    rw [unread_eq, List.drop_eq_getElem_cons inside, size, List.take_succ_cons]
  rw [shape, List.cons.injEq] at first
  obtain ⟨rfl, rfl⟩ := first
  refine ⟨⟨b.data, b.start + 1, b.stop, before, b.stop_le⟩, ?_, ?_, rfl⟩
  · simp [next?, before]
  · rw [unread_eq]

@[simp]
theorem capacity_take (b : Buffer) (count : Nat) : (b.take count).2.capacity = b.capacity := rfl

@[simp]
theorem fst_take (b : Buffer) (count : Nat) : (b.take count).1 = b.unread.take count := rfl

@[simp]
theorem unread_take (b : Buffer) (count : Nat) : (b.take count).2.unread = b.unread.drop count := by
  have start_le := b.start_le
  have stop_le := b.stop_le
  rw [unread_eq, unread_eq]
  simp only [take]
  rw [List.drop_take, List.drop_drop]
  by_cases within : b.start + count ≤ b.stop
  · rw [Nat.min_eq_left within]
    congr 1
    omega
  · rw [Nat.min_eq_right (by omega), Nat.sub_self, List.take_zero]
    have nothing : b.stop - b.start - count = 0 := by omega
    rw [nothing, List.take_zero]

@[simp]
theorem fst_drain (b : Buffer) : b.drain.1 = b.unread := rfl

@[simp]
theorem capacity_drain (b : Buffer) : b.drain.2.capacity = b.capacity := rfl

@[simp]
theorem unread_drain (b : Buffer) : b.drain.2.unread = [] := by
  rw [unread_eq_nil_iff]
  simp [length, drain]

private theorem unread_extend_makeRoom (b : Buffer) (bytes : List UInt8) :
    ((b.makeRoom bytes.length).extend bytes).unread =
      b.unread ++ bytes.take (b.capacity - b.length) := by
  have room := b.min_room_makeRoom bytes.length
  rw [unread_extend, unread_makeRoom, List.append_cancel_left_eq, List.take_eq_take_iff]
  omega

theorem write_eq (b : Buffer) (bytes : List UInt8) :
    ∃ b', b.write bytes = (b', min bytes.length (b.capacity - b.length),
        if b.capacity - b.length < bytes.length then
          some (b'.full (bytes.length - (b.capacity - b.length))) else none) ∧
      b'.unread = b.unread ++ bytes.take (b.capacity - b.length) ∧ b'.capacity = b.capacity := by
  have room := b.min_room_makeRoom bytes.length
  refine ⟨(b.makeRoom bytes.length).extend bytes, ?_, b.unread_extend_makeRoom bytes, by simp⟩
  simp only [write, room]
  by_cases short : b.capacity - b.length < bytes.length
  · rw [if_pos short, if_pos (by omega), Nat.min_eq_right (by omega)]
  · rw [if_neg short, if_neg (by omega)]

theorem appendAll_of_room {b : Buffer} {bytes : List UInt8}
    (room : bytes.length ≤ b.capacity - b.length) :
    ∃ b', b.appendAll bytes = .ok b' ∧ b'.unread = b.unread ++ bytes ∧ b'.capacity = b.capacity := by
  refine ⟨(b.makeRoom bytes.length).extend bytes, ?_, ?_, by simp⟩
  · rw [appendAll, if_neg (by omega)]
  · rw [unread_extend_makeRoom, List.take_of_length_le room]

theorem appendAll_of_short {b : Buffer} {bytes : List UInt8}
    (short : b.capacity - b.length < bytes.length) :
    b.appendAll bytes = .error (b.full bytes.length) := by
  rw [appendAll, if_pos short]

@[simp]
theorem capacity_refill (b : Buffer) (bytes : List UInt8) :
    (b.refill bytes).capacity = b.capacity := by
  rw [refill, capacity_extend, capacity_reset]

@[simp]
theorem unread_refill (b : Buffer) (bytes : List UInt8) :
    (b.refill bytes).unread = bytes.take b.capacity := by
  rw [refill, unread_extend, unread_reset, List.nil_append]
  rfl

end TapeMachine.Buffer
