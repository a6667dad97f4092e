import TapeMachine.Brackets
/-!
# Jump tables

Every bracket is entered into the matching of a program once, so the pairs of the matching do not
share offsets, and the jump table leads from each bracket of a pair to the other and nowhere else.
-/

set_option autoImplicit false
set_option relaxedAutoImplicit false

namespace TapeMachine

/-- The bracket that a table has for an offset; `none` where it has no entry, or none of a bracket. -/
def JumpTable.paired? (table : JumpTable) (offset : Nat) : Option Nat :=
  match table[offset]? with
  | some (some other) => some other
  | _ => none

theorem JumpTable.partner_eq_getD (table : JumpTable) (offset : Nat) :
    table.partner offset = (table.paired? offset).getD offset := by
  unfold partner paired?
  rcases table[offset]? with _ | _ | other <;> rfl

theorem JumpTable.paired?_eq_some_iff {table : JumpTable} {offset other : Nat} :
    table.paired? offset = some other ↔ table[offset]? = some (some other) := by
  unfold paired?
  rcases table[offset]? with _ | _ | found <;> simp

namespace Instruction

def IsBracket (i : Instruction) : Prop := i = .loopStart ∨ i = .loopEnd

end Instruction

namespace Brackets

def offsetsOf (pairs : List (Nat × Nat)) : List Nat := pairs.flatMap fun pair => [pair.1, pair.2]

def Matching.offsets (m : Matching) : List Nat := offsetsOf m.pairs ++ (m.opened ++ m.unopened)

/-- No bracket has been entered twice, and all of them are before an offset. -/
structure Matching.Tidy (m : Matching) (bound : Nat) : Prop where
  nodup : m.offsets.Nodup
  below : ∀ offset ∈ m.offsets, offset < bound

private theorem read_offsets (m : Matching) (offset : Nat) (c : UInt8) :
    (m.read offset c).offsets.Perm m.offsets ∨
      (∃ i, Instruction.ofByte? c = some i ∧ i.IsBracket) ∧
        (m.read offset c).offsets.Perm (offset :: m.offsets) := by
  unfold Matching.read
  split
  case h_1 known => exact Or.inr ⟨⟨_, known, Or.inl rfl⟩, List.perm_middle⟩
  case h_2 known =>
    refine Or.inr ⟨⟨_, known, Or.inr rfl⟩, ?_⟩
    split
    case h_1 none_open =>
      simp only [Matching.offsets, none_open, List.nil_append]
      exact List.perm_middle
    case h_2 start rest some_open =>
      simp only [Matching.offsets, some_open, offsetsOf, List.flatMap_cons, List.cons_append,
        List.nil_append]
      exact (List.Perm.swap _ _ _).trans (List.perm_middle.symm.cons offset)
  case h_3 => exact Or.inl (List.Perm.refl _)

private theorem Matching.mem_offsets_read {m : Matching} {other : Nat} (member : other ∈ m.offsets)
    (offset : Nat) (c : UInt8) : other ∈ (m.read offset c).offsets := by
  rcases read_offsets m offset c with same | ⟨_, added⟩
  · exact same.mem_iff.mpr member
  · exact added.mem_iff.mpr (List.mem_cons_of_mem offset member)

private theorem Matching.mem_offsets_read_bracket (m : Matching) (offset : Nat) {c : UInt8}
    {i : Instruction} (known : Instruction.ofByte? c = some i) (bracket : i.IsBracket) :
    offset ∈ (m.read offset c).offsets := by
  rcases bracket with rfl | rfl
  · simp [Matching.read, known, Matching.offsets]
  · cases opened : m.opened with
    | nil => simp [Matching.read, known, opened, Matching.offsets]
    | cons start rest => simp [Matching.read, known, opened, Matching.offsets, offsetsOf]

private theorem Matching.mem_offsets_readAll {m : Matching} {other : Nat} (member : other ∈ m.offsets)
    (offset : Nat) (bytes : List UInt8) : other ∈ (m.readAll offset bytes).offsets := by
  induction bytes generalizing m offset with
  | nil => exact member
  | cons c rest ih => exact ih (mem_offsets_read member offset c) (offset + 1)

theorem Matching.mem_offsets_readAll_bracket (m : Matching) (offset : Nat) {bytes : List UInt8}
    {n : Nat} {c : UInt8} {i : Instruction} (found : bytes[n]? = some c)
    (known : Instruction.ofByte? c = some i) (bracket : i.IsBracket) :
    offset + n ∈ (m.readAll offset bytes).offsets := by
  induction bytes generalizing m offset n with
  | nil => simp at found
  | cons first rest ih =>
      cases n with
      | zero =>
          rw [List.getElem?_cons_zero, Option.some.injEq] at found
          rw [found]
          exact mem_offsets_readAll (m.mem_offsets_read_bracket offset known bracket) (offset + 1) rest
      | succ n =>
          rw [List.getElem?_cons_succ] at found
          have later := ih (m.read offset first) (offset + 1) found
          rw [show offset + (n + 1) = offset + 1 + n by omega]
          exact later

theorem Matching.bracket_of_mem_offsets_readAll {m : Matching} {offset other : Nat}
    {bytes : List UInt8} (member : other ∈ (m.readAll offset bytes).offsets) :
    other ∈ m.offsets ∨ ∃ n c i, other = offset + n ∧ bytes[n]? = some c ∧
      Instruction.ofByte? c = some i ∧ i.IsBracket := by
  induction bytes generalizing m offset with
  | nil => exact Or.inl member
  | cons first rest ih =>
      rcases ih member with before | ⟨n, c, i, place, found, known, bracket⟩
      · rcases read_offsets m offset first with same | ⟨⟨i, known, bracket⟩, added⟩
        · exact Or.inl (same.mem_iff.mp before)
        · rcases List.mem_cons.mp (added.mem_iff.mp before) with rfl | old
          · exact Or.inr ⟨0, first, i, rfl, rfl, known, bracket⟩
          · exact Or.inl old
      · exact Or.inr ⟨n + 1, c, i, by omega, found, known, bracket⟩

private theorem Matching.Tidy.read {m : Matching} {offset : Nat} (tidy : m.Tidy offset) (c : UInt8) :
    (m.read offset c).Tidy (offset + 1) := by
  rcases read_offsets m offset c with same | ⟨_, added⟩
  · refine ⟨same.nodup_iff.mpr tidy.nodup, fun other member => ?_⟩
    exact Nat.lt_succ_of_lt (tidy.below other (same.mem_iff.mp member))
  · refine ⟨added.nodup_iff.mpr (List.nodup_cons.mpr ⟨fun member => ?_, tidy.nodup⟩),
      fun other member => ?_⟩
    · exact Nat.lt_irrefl offset (tidy.below offset member)
    · rcases List.mem_cons.mp (added.mem_iff.mp member) with rfl | old
      · exact Nat.lt_succ_self _
      · exact Nat.lt_succ_of_lt (tidy.below other old)

private theorem Matching.Tidy.readAll {m : Matching} {offset : Nat} (tidy : m.Tidy offset)
    (bytes : List UInt8) : (m.readAll offset bytes).Tidy (offset + bytes.length) := by
  induction bytes generalizing m offset with
  | nil => exact tidy
  | cons c rest ih =>
      have later := ih (tidy.read c)
      rw [List.length_cons, show offset + (rest.length + 1) = offset + 1 + rest.length by omega]
      exact later

private theorem matching_tidy (program : List UInt8) : (matching program).Tidy program.length := by
  have start : Matching.empty.Tidy 0 := ⟨List.nodup_nil, fun _ member => by cases member⟩
  simpa [matching] using start.readAll program

private def enter (table : JumpTable) (pair : Nat × Nat) : JumpTable :=
  (table.setIfInBounds pair.1 (some pair.2)).setIfInBounds pair.2 (some pair.1)

private theorem size_enterAll (table : JumpTable) (pairs : List (Nat × Nat)) :
    (pairs.foldl enter table).size = table.size := by
  induction pairs generalizing table with
  | nil => rfl
  | cons pair rest ih => simp [ih, enter]

private theorem enterAll_of_not_mem (table : JumpTable) (pairs : List (Nat × Nat)) (offset : Nat)
    (absent : offset ∉ offsetsOf pairs) :
    (pairs.foldl enter table)[offset]? = table[offset]? := by
  induction pairs generalizing table with
  | nil => rfl
  | cons pair rest ih =>
      simp only [offsetsOf, List.flatMap_cons, List.mem_append, List.mem_cons, List.not_mem_nil,
        or_false, not_or] at absent
      rw [List.foldl_cons, ih _ absent.2, enter,
        Array.getElem?_setIfInBounds_ne (Ne.symm absent.1.2),
        Array.getElem?_setIfInBounds_ne (Ne.symm absent.1.1)]

private theorem enterAll_of_mem (table : JumpTable) (pairs : List (Nat × Nat))
    (nodup : (offsetsOf pairs).Nodup) (below : ∀ offset ∈ offsetsOf pairs, offset < table.size)
    {pair : Nat × Nat} (member : pair ∈ pairs) :
    (pairs.foldl enter table)[pair.1]? = some (some pair.2) ∧
      (pairs.foldl enter table)[pair.2]? = some (some pair.1) := by
  induction pairs generalizing table with
  | nil => cases member
  | cons first rest ih =>
      have split : offsetsOf (first :: rest) = [first.1, first.2] ++ offsetsOf rest := rfl
      rw [split, List.nodup_append] at nodup
      obtain ⟨own, others, apart⟩ := nodup
      rw [List.foldl_cons]
      rcases List.mem_cons.mp member with rfl | later
      · have left : pair.1 < table.size := below _ (by simp [split])
        have right : pair.2 < table.size := below _ (by simp [split])
        have differ : pair.2 ≠ pair.1 := by simpa [eq_comm] using own
        have absent₁ : pair.1 ∉ offsetsOf rest := fun h => apart _ (by simp) _ h rfl
        have absent₂ : pair.2 ∉ offsetsOf rest := fun h => apart _ (by simp) _ h rfl
        rw [enterAll_of_not_mem _ _ _ absent₁, enterAll_of_not_mem _ _ _ absent₂, enter,
          Array.getElem?_setIfInBounds_ne differ]
        simp [left, right]
      · refine ih _ others (fun offset inside => ?_) later
        have bound := below offset (by rw [split]; exact List.mem_append_right _ inside)
        simpa [enter] using bound

private theorem size_table (m : Matching) (size : Nat) : (m.table size).size = size := by
  have entered := size_enterAll (Array.replicate size none) m.pairs
  rw [Array.size_replicate] at entered
  exact entered

theorem paired?_of_mem {program : List UInt8} {i j : Nat} (member : (i, j) ∈ (matching program).pairs) :
    ((matching program).table program.length).paired? i = some j ∧
      ((matching program).table program.length).paired? j = some i := by
  have tidy := matching_tidy program
  have entered := enterAll_of_mem (Array.replicate program.length none) (matching program).pairs
    (List.nodup_append.mp tidy.nodup).1
    (fun offset inside => by
      rw [Array.size_replicate]
      exact tidy.below offset (List.mem_append_left _ inside)) member
  have table : (matching program).table program.length =
      (matching program).pairs.foldl enter (Array.replicate program.length none) := rfl
  rw [JumpTable.paired?, JumpTable.paired?, table, entered.1, entered.2]
  exact ⟨rfl, rfl⟩

theorem partner_of_mem {program : List UInt8} {i j : Nat} (member : (i, j) ∈ (matching program).pairs) :
    ((matching program).table program.length).partner i = j ∧
      ((matching program).table program.length).partner j = i := by
  obtain ⟨forth, back⟩ := paired?_of_mem member
  rw [JumpTable.partner_eq_getD, JumpTable.partner_eq_getD, forth, back]
  exact ⟨rfl, rfl⟩

theorem getElem?_table_of_not_mem {program : List UInt8} {offset : Nat}
    (absent : offset ∉ offsetsOf (matching program).pairs) (inside : offset < program.length) :
    ((matching program).table program.length)[offset]? = some none := by
  have kept := enterAll_of_not_mem (Array.replicate program.length none) (matching program).pairs
    offset absent
  have blank : (Array.replicate program.length (none : Option Nat))[offset]? = some none := by
    simp [inside]
  exact kept.trans blank

private theorem partner_of_not_mem {program : List UInt8} {offset : Nat}
    (absent : offset ∉ offsetsOf (matching program).pairs) :
    ((matching program).table program.length).partner offset = offset := by
  rcases Nat.lt_or_ge offset program.length with inside | outside
  · rw [JumpTable.partner, getElem?_table_of_not_mem absent inside]
  · have beyond : ((matching program).table program.length)[offset]? = none := by
      rw [Array.getElem?_eq_none_iff, size_table]
      exact outside
    rw [JumpTable.partner, beyond]

end Brackets

/-- A program links if no bracket is left over; its table is then made from its matching. -/
theorem link_eq_ok_iff {program : List UInt8} {jumps : JumpTable} :
    link program = .ok jumps ↔
      (Brackets.matching program).unopened = [] ∧ (Brackets.matching program).opened = [] ∧
        jumps = (Brackets.matching program).table program.length := by
  have none_left : (Brackets.matching program).mismatches = [] ↔
      (Brackets.matching program).unopened = [] ∧ (Brackets.matching program).opened = [] := by
    simp [Brackets.Matching.mismatches]
  unfold link
  cases left : (Brackets.matching program).mismatches with
  | nil =>
      obtain ⟨unopened, opened⟩ := none_left.mp left
      simp [left, unopened, opened, eq_comm]
  | cons e rest =>
      constructor
      · intro linked
        simp [left] at linked
      · rintro ⟨unopened, opened, _⟩
        rw [none_left.mpr ⟨unopened, opened⟩] at left
        cases left

theorem size_of_link {program : List UInt8} {jumps : JumpTable} (linked : link program = .ok jumps) :
    jumps.size = program.length := by
  obtain ⟨_, _, rfl⟩ := link_eq_ok_iff.mp linked
  exact Brackets.size_table _ _

theorem exists_mem_pairs_of_link {program : List UInt8} {jumps : JumpTable}
    (linked : link program = .ok jumps) {offset : Nat} {c : UInt8} {i : Instruction}
    (found : program[offset]? = some c) (known : Instruction.ofByte? c = some i)
    (bracket : i.IsBracket) :
    ∃ other, (offset, other) ∈ (Brackets.matching program).pairs ∨
      (other, offset) ∈ (Brackets.matching program).pairs := by
  obtain ⟨unopened, opened, _⟩ := link_eq_ok_iff.mp linked
  have read := Brackets.Matching.empty.mem_offsets_readAll_bracket 0 found known bracket
  rw [Nat.zero_add, ← Brackets.matching, Brackets.Matching.offsets, unopened, opened, List.append_nil,
    List.append_nil] at read
  obtain ⟨⟨start, close⟩, member, side⟩ := List.mem_flatMap.mp read
  simp only [List.mem_cons, List.not_mem_nil, or_false] at side
  rcases side with rfl | rfl
  · exact ⟨close, Or.inl member⟩
  · exact ⟨start, Or.inr member⟩

theorem exists_paired?_of_link {program : List UInt8} {jumps : JumpTable}
    (linked : link program = .ok jumps) {offset : Nat} {c : UInt8} {i : Instruction}
    (found : program[offset]? = some c) (known : Instruction.ofByte? c = some i)
    (bracket : i.IsBracket) :
    ∃ other, jumps.paired? offset = some other ∧ jumps.paired? other = some offset := by
  obtain ⟨other, pair⟩ := exists_mem_pairs_of_link linked found known bracket
  obtain ⟨_, _, rfl⟩ := link_eq_ok_iff.mp linked
  rcases pair with member | member
  · exact ⟨other, Brackets.paired?_of_mem member⟩
  · exact ⟨other, (Brackets.paired?_of_mem member).symm⟩

theorem partner_lt_of_link {program : List UInt8} {jumps : JumpTable}
    (linked : link program = .ok jumps) {offset : Nat} (inside : offset < program.length) :
    jumps.partner offset < program.length := by
  obtain ⟨_, _, rfl⟩ := link_eq_ok_iff.mp linked
  have tidy := Brackets.matching_tidy program
  have below (other : Nat) (member : other ∈ Brackets.offsetsOf (Brackets.matching program).pairs) :
      other < program.length := tidy.below other (List.mem_append_left _ member)
  by_cases known : offset ∈ Brackets.offsetsOf (Brackets.matching program).pairs
  · obtain ⟨⟨i, j⟩, member, side⟩ := List.mem_flatMap.mp known
    have ends : i < program.length ∧ j < program.length :=
      ⟨below i (List.mem_flatMap.mpr ⟨_, member, by simp⟩),
        below j (List.mem_flatMap.mpr ⟨_, member, by simp⟩)⟩
    have partners := Brackets.partner_of_mem member
    simp only [List.mem_cons, List.not_mem_nil, or_false] at side
    rcases side with rfl | rfl
    · rw [partners.1]
      exact ends.2
    · rw [partners.2]
      exact ends.1
  · rw [Brackets.partner_of_not_mem known]
    exact inside

end TapeMachine
