import TapeMachine.Cbor.Conversion
/-!
# Reading what has been written

Heads are written in their shortest form and read in every form, so a head that has been written is
read as itself, whatever comes after it. The same holds of integers, byte strings and null, and of maps
of such items.
-/

set_option autoImplicit false
set_option relaxedAutoImplicit false

namespace TapeMachine.Cbor

@[simp]
theorem length_bigEndian (width n : Nat) : (bigEndian width n).length = width := by
  induction width generalizing n with
  | zero => rfl
  | succ width ih => rw [bigEndian, List.length_append, ih, List.length_singleton]

private theorem ofBigEndian_append_singleton (bytes : List UInt8) (c : UInt8) :
    ofBigEndian (bytes ++ [c]) = ofBigEndian bytes * 256 + c.toNat := by
  simp [ofBigEndian]

private theorem ofBigEndian_bigEndian {width n : Nat} (small : n < Nat.pow 256 width) :
    ofBigEndian (bigEndian width n) = n := by
  induction width generalizing n with
  | zero =>
      have nothing : n = 0 := Nat.lt_one_iff.mp small
      rw [nothing]
      rfl
  | succ width ih =>
      have quotient : n / 256 < Nat.pow 256 width := Nat.div_lt_of_lt_mul (by
        rw [Nat.mul_comm]
        exact small)
      have digit : (n % 256).toUInt8.toNat = n % 256 := by
        rw [Nat.toUInt8, UInt8.toNat_ofNat']
        omega
      rw [bigEndian, ofBigEndian_append_singleton, ih quotient, digit]
      omega

namespace Head

private theorem first_byte (major : Major) {info : Nat} (short : info < 32) :
    Major.ofByte (major.code * 32 + info).toUInt8 = major ∧
      (major.code * 32 + info).toUInt8.toNat % 32 = info := by
  have code : major.code < 8 := by cases major <;> decide
  have number : (major.code * 32 + info).toUInt8.toNat = major.code * 32 + info := by
    rw [Nat.toUInt8, UInt8.toNat_ofNat']
    omega
  have quotient : (major.code * 32 + info) / 32 = major.code := by omega
  refine ⟨?_, by rw [number]; omega⟩
  rw [Major.ofByte, number, quotient]
  cases major <;> rfl

private theorem read_narrow {major : Major} {n : Nat} (small : n < 24) (rest : List UInt8) :
    ∃ shorter, read ((major.code * 32 + n).toUInt8 :: rest) =
      .ok (⟨major, .number 0 n⟩, ⟨rest, shorter⟩) := by
  obtain ⟨kind, info⟩ := first_byte major (show n < 32 by omega)
  refine ⟨Nat.lt_succ_self _, ?_⟩
  simp only [read, kind, info, small, if_true]

private theorem read_wide {major : Major} {exponent n : Nat} (definite : major ≠ .simple)
    (known : exponent < 4) (small : n < Nat.pow 256 (Nat.pow 2 exponent)) (rest : List UInt8) :
    ∃ width shorter, read ((major.code * 32 + (24 + exponent)).toUInt8 ::
      (bigEndian (Nat.pow 2 exponent) n ++ rest)) =
        .ok (⟨major, .number width n⟩, ⟨rest, shorter⟩) := by
  obtain ⟨kind, info⟩ := first_byte major (show 24 + exponent < 32 by omega)
  have narrow : ¬ 24 + exponent < 24 := by omega
  have wide : 24 + exponent < 28 := by omega
  have digits : (bigEndian (Nat.pow 2 exponent) n ++ rest).take (Nat.pow 2 exponent) =
      bigEndian (Nat.pow 2 exponent) n := List.take_left' (length_bigEndian _ _)
  have left : (bigEndian (Nat.pow 2 exponent) n ++ rest).drop (Nat.pow 2 exponent) = rest :=
    List.drop_left' (length_bigEndian _ _)
  refine ⟨Nat.pow 2 exponent, ?_, ?_⟩
  · simp only [List.length_cons, List.length_append]
    omega
  · simp only [read, kind, info, narrow, wide, if_true, if_false, Nat.add_sub_cancel_left, digits,
      length_bigEndian, Nat.lt_irrefl, ofBigEndian_bigEndian small, definite, decide_false,
      Bool.false_and, Bool.false_eq_true, left]

theorem read_write {major : Major} {n : Nat} (definite : major ≠ .simple)
    (small : n < 0x10000000000000000) (rest : List UInt8) :
    ∃ width shorter, read (write major n ++ rest) =
      .ok (⟨major, .number width n⟩, ⟨rest, shorter⟩) := by
  unfold write
  by_cases tiny : n < 24
  · obtain ⟨shorter, done⟩ := read_narrow tiny rest
    rw [if_pos tiny]
    exact ⟨0, shorter, done⟩
  rw [if_neg tiny]
  by_cases one : n < 0x100
  · rw [if_pos one]
    exact read_wide definite (show 0 < 4 by decide) one rest
  rw [if_neg one]
  by_cases two : n < 0x10000
  · rw [if_pos two]
    exact read_wide definite (show 1 < 4 by decide) two rest
  rw [if_neg two]
  by_cases four : n < 0x100000000
  · rw [if_pos four]
    exact read_wide definite (show 2 < 4 by decide) four rest
  · rw [if_neg four]
    exact read_wide definite (show 3 < 4 by decide) small rest

end Head

/-- An item is read from the front of some bytes, and the rest of them is left. -/
def Reads (depth : Nat) (s : List UInt8) (item : Item) (rest : List UInt8) : Prop :=
  ∃ shorter, readItem depth s = .ok (item, ⟨rest, shorter⟩)

theorem reads_unsigned {n : Nat} (small : n < 0x10000000000000000) (depth : Nat)
    (rest : List UInt8) : Reads depth (Head.write .unsigned n ++ rest) (.unsigned n) rest := by
  obtain ⟨width, shorter, head⟩ := Head.read_write (show Major.unsigned ≠ .simple by decide) small rest
  refine ⟨shorter, ?_⟩
  rw [readItem, head]

private theorem reads_negative {n : Nat} (small : n < 0x10000000000000000) (depth : Nat)
    (rest : List UInt8) : Reads depth (Head.write .negative n ++ rest) (.negative n) rest := by
  obtain ⟨width, shorter, head⟩ := Head.read_write (show Major.negative ≠ .simple by decide) small rest
  refine ⟨shorter, ?_⟩
  rw [readItem, head]

def Item.ofInt (i : Int) : Item := if 0 ≤ i then .unsigned i.toNat else .negative (-1 - i).toNat

theorem reads_integer {i : Int} (low : -0x10000000000000000 ≤ i) (high : i < 0x10000000000000000)
    (depth : Nat) (rest : List UInt8) :
    Reads depth (encodeInteger i ++ rest) (.ofInt i) rest := by
  unfold encodeInteger Item.ofInt
  split
  · exact reads_unsigned (by omega) depth rest
  · exact reads_negative (by omega) depth rest

theorem reads_null (depth : Nat) (rest : List UInt8) :
    Reads depth (encodeNull ++ rest) (.simple 22) rest := by
  have head : Head.read (0xF6 :: rest) =
      .ok (⟨.simple, .number 0 22⟩, ⟨rest, Nat.lt_succ_self _⟩) := rfl
  have read : readItem depth (0xF6 :: rest) = .ok (.simple 22, ⟨rest, Nat.lt_succ_self _⟩) := by
    rw [readItem, head]
    rfl
  exact ⟨_, read⟩

private theorem readContent_append {content : List UInt8}
    (small : content.length < 0x8000000000000000) (rest : List UInt8) :
    ∃ notLonger, readContent content.length (content ++ rest) = .ok (content, ⟨rest, notLonger⟩) := by
  have front : (content ++ rest).take content.length = content := List.take_left
  have left : (content ++ rest).drop content.length = rest := List.drop_left
  refine ⟨by simp, ?_⟩
  simp only [readContent, front, left, Nat.not_le.mpr small, Nat.lt_irrefl, if_false]

theorem reads_bytes {content : List UInt8} (small : content.length < 0x8000000000000000)
    (depth : Nat) (rest : List UInt8) :
    Reads depth (encodeBytes content ++ rest) (.bytes content) rest := by
  have fits : content.length < 0x10000000000000000 := by omega
  obtain ⟨width, shorter, head⟩ :=
    Head.read_write (show Major.bytes ≠ .simple by decide) fits (content ++ rest)
  obtain ⟨notLonger, read⟩ := readContent_append small rest
  rw [encodeBytes, List.append_assoc]
  refine ⟨Nat.lt_of_le_of_lt notLonger shorter, ?_⟩
  rw [readItem, head]
  simp only [readString, read, List.flatten_cons, List.flatten_nil, List.append_nil]
  rfl

theorem toInteger_ofInt {low high i : Int} (above : low ≤ i) (below : i ≤ high) :
    Item.toInteger low high (.ofInt i) = .ok (some i) := by
  have inside (n : Int) (same : n = i) : Item.inRange low high n = .ok (some i) := by
    simp [Item.inRange, same, above, below]
  unfold Item.ofInt
  split
  · simp only [Item.toInteger, Item.bare]
    exact inside _ (by omega)
  · simp only [Item.toInteger, Item.bare]
    exact inside _ (by omega)

/-- Bytes that are read as an item wherever they stand. -/
structure Written where
  bytes : List UInt8
  item : Item
  reads : ∀ depth rest, Reads depth (bytes ++ rest) item rest

private theorem readItems_written (depth : Nat) (members : List Written) (before : List Item)
    {start s rest : List UInt8} (whole : (members.map Written.bytes).flatten ++ rest = s)
    (bound : s.length ≤ start.length) :
    ∃ notLonger, readItems depth before members.length start s bound =
      .ok (before.reverse ++ members.map Written.item, ⟨rest, notLonger⟩) := by
  induction members generalizing before s with
  | nil =>
      subst whole
      refine ⟨bound, ?_⟩
      rw [List.length_nil, readItems]
      simp
  | cons first others ih =>
      rw [List.map_cons, List.flatten_cons, List.append_assoc] at whole
      subst whole
      obtain ⟨shorter, read⟩ := first.reads depth ((others.map Written.bytes).flatten ++ rest)
      have later : ((others.map Written.bytes).flatten ++ rest).length ≤ start.length := by omega
      obtain ⟨notLonger, done⟩ := ih (first.item :: before) rfl later
      refine ⟨notLonger, ?_⟩
      rw [List.length_cons, readItems, read]
      simpa using done

theorem reads_map {members : List Written} {n : Nat} (length : members.length = n * 2)
    (few : n ≤ maxElements) (rest : List UInt8) :
    Reads maxDepth (Head.write .map n ++ (members.map Written.bytes).flatten ++ rest)
      (.map (members.map Written.item)) rest := by
  have small : n < 0x10000000000000000 := by
    simp only [maxElements] at few
    omega
  obtain ⟨width, shorter, head⟩ := Head.read_write (show Major.map ≠ .simple by decide) small
    ((members.map Written.bytes).flatten ++ rest)
  obtain ⟨notLonger, done⟩ := readItems_written 31 members [] rfl (Nat.le_refl _)
  rw [List.append_assoc]
  refine ⟨Nat.lt_of_le_of_lt notLonger shorter, ?_⟩
  rw [readItem, head]
  simp only [maxDepth, readMembers, Nat.not_lt.mpr few, if_false, ← length, done]
  rfl

end TapeMachine.Cbor
