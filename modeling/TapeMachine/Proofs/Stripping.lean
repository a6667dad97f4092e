import TapeMachine.Proofs.Matching
/-!
# Programs without comments

Taking the comments out of a program moves every instruction to the place that is the number of
instructions before it. Brackets keep their partners: the matching is the same up to this
renumbering, so the program without comments links when the program does, and its jumps lead to the
same instructions.
-/

set_option autoImplicit false
set_option relaxedAutoImplicit false

namespace TapeMachine

namespace Instruction

private theorem isInstruction_of_some {c : UInt8} {i : Instruction} (known : ofByte? c = some i) :
    isInstruction c = true := by
  rw [isInstruction, known]
  rfl

private theorem isInstruction_of_none {c : UInt8} (comment : ofByte? c = none) :
    isInstruction c = false := by
  rw [isInstruction, comment]
  rfl

end Instruction

/-- The instructions of a program, without its comments. -/
def strip (program : List UInt8) : List UInt8 := program.filter Instruction.isInstruction

/-- The number of instructions before an offset. -/
def rank (program : List UInt8) (offset : Nat) : Nat :=
  (program.take offset).countP Instruction.isInstruction

theorem rank_zero (program : List UInt8) : rank program 0 = 0 := rfl

theorem rank_of_length_le {program : List UInt8} {offset : Nat} (ended : program.length ≤ offset) :
    rank program offset = (strip program).length := by
  rw [rank, List.take_of_length_le ended, List.countP_eq_length_filter, strip]

private theorem rank_succ {program : List UInt8} {offset : Nat} {c : UInt8}
    (found : program[offset]? = some c) :
    rank program (offset + 1) =
      rank program offset + if Instruction.isInstruction c then 1 else 0 := by
  rw [rank, rank, List.take_add_one, found, List.countP_append]
  simp [List.countP_cons]

theorem rank_succ_of_some {program : List UInt8} {offset : Nat} {c : UInt8} {i : Instruction}
    (found : program[offset]? = some c) (known : Instruction.ofByte? c = some i) :
    rank program (offset + 1) = rank program offset + 1 := by
  rw [rank_succ found, Instruction.isInstruction_of_some known]
  rfl

theorem rank_succ_of_none {program : List UInt8} {offset : Nat} {c : UInt8}
    (found : program[offset]? = some c) (comment : Instruction.ofByte? c = none) :
    rank program (offset + 1) = rank program offset := by
  rw [rank_succ found, Instruction.isInstruction_of_none comment]
  rfl

theorem getElem?_strip_rank {program : List UInt8} {offset : Nat} {c : UInt8} {i : Instruction}
    (found : program[offset]? = some c) (known : Instruction.ofByte? c = some i) :
    (strip program)[rank program offset]? = some c := by
  obtain ⟨inside, here⟩ := List.getElem?_eq_some_iff.mp found
  have kept := Instruction.isInstruction_of_some known
  have parts : program = program.take offset ++ c :: program.drop (offset + 1) := by
    rw [← here, List.getElem_cons_drop, List.take_append_drop]
  have split : strip program =
      strip (program.take offset) ++ c :: strip (program.drop (offset + 1)) := by
    conv => lhs; rw [strip, parts]
    rw [List.filter_append, List.filter_cons_of_pos kept]
    rfl
  have length : (strip (program.take offset)).length = rank program offset := by
    rw [strip, ← List.countP_eq_length_filter, rank]
  rw [split, List.getElem?_append_right (Nat.le_of_eq length), length, Nat.sub_self]
  rfl

namespace Brackets

def Matching.renumber (f : Nat → Nat) (m : Matching) : Matching :=
  ⟨m.pairs.map fun pair => (f pair.1, f pair.2), m.unopened.map f, m.opened.map f⟩

private theorem Matching.read_renumber (f : Nat → Nat) (m : Matching) (offset : Nat) (c : UInt8) :
    (m.renumber f).read (f offset) c = (m.read offset c).renumber f := by
  unfold Matching.read
  split
  · rfl
  · cases opened : m.opened with
    | nil => simp [renumber, opened]
    | cons start rest => simp [renumber, opened]
  · rfl

private theorem Matching.read_of_none (m : Matching) (offset : Nat) {c : UInt8}
    (comment : Instruction.ofByte? c = none) : m.read offset c = m := by
  rw [Matching.read, comment]

private theorem Matching.readAll_strip {f : Nat → Nat} {bytes : List UInt8} (m : Matching)
    (offset : Nat) (counts : ∀ n c, bytes[n]? = some c →
      f (offset + n + 1) = f (offset + n) + if Instruction.isInstruction c then 1 else 0) :
    (m.renumber f).readAll (f offset) (strip bytes) = (m.readAll offset bytes).renumber f := by
  induction bytes generalizing m offset with
  | nil => rfl
  | cons c rest ih =>
      have here := counts 0 c rfl
      have later := ih (m.read offset c) (offset + 1) fun n d found => by
        have next := counts (n + 1) d found
        rwa [show offset + (n + 1) = offset + 1 + n by omega] at next
      rw [Nat.add_zero] at here
      rw [Matching.readAll, ← later, here, ← m.read_renumber]
      cases known : Instruction.ofByte? c with
      | none =>
          have comment := Instruction.isInstruction_of_none known
          rw [Matching.read_of_none _ _ known, strip, List.filter_cons_of_neg (by simp [comment]),
            comment]
          rfl
      | some i =>
          have kept := Instruction.isInstruction_of_some known
          rw [strip, List.filter_cons_of_pos kept, kept]
          rfl

private theorem matching_strip (program : List UInt8) :
    matching (strip program) = (matching program).renumber (rank program) := by
  refine Matching.empty.readAll_strip (f := rank program) 0 fun n c found => ?_
  rw [Nat.zero_add]
  exact rank_succ found

end Brackets

theorem exists_link_strip_iff (program : List UInt8) :
    (∃ jumps, link (strip program) = .ok jumps) ↔ ∃ jumps, link program = .ok jumps := by
  simp only [link_eq_ok_iff, Brackets.matching_strip, Brackets.Matching.renumber, List.map_eq_nil_iff]
  constructor
  · rintro ⟨_, unopened, opened, _⟩
    exact ⟨_, unopened, opened, rfl⟩
  · rintro ⟨_, unopened, opened, _⟩
    exact ⟨_, unopened, opened, rfl⟩

section Partners

variable {program : List UInt8} {jumps jumps' : JumpTable} {offset : Nat} {c : UInt8} {i : Instruction}

/-- The partner of a bracket without comments is its partner with comments. -/
theorem partner_rank (linked : link program = .ok jumps) (linked' : link (strip program) = .ok jumps')
    (found : program[offset]? = some c) (known : Instruction.ofByte? c = some i)
    (bracket : i.IsBracket) :
    jumps'.partner (rank program offset) = rank program (jumps.partner offset) := by
  have renumbered {first second : Nat} (member : (first, second) ∈ (Brackets.matching program).pairs) :
      (rank program first, rank program second) ∈ (Brackets.matching (strip program)).pairs := by
    rw [Brackets.matching_strip]
    exact List.mem_map.mpr ⟨_, member, rfl⟩
  obtain ⟨other, pair⟩ := exists_mem_pairs_of_link linked found known bracket
  obtain ⟨_, _, rfl⟩ := link_eq_ok_iff.mp linked
  obtain ⟨_, _, rfl⟩ := link_eq_ok_iff.mp linked'
  rcases pair with member | member
  · rw [(Brackets.partner_of_mem member).1, (Brackets.partner_of_mem (renumbered member)).1]
  · rw [(Brackets.partner_of_mem member).2, (Brackets.partner_of_mem (renumbered member)).2]

theorem exists_bracket_partner (linked : link program = .ok jumps) (found : program[offset]? = some c)
    (known : Instruction.ofByte? c = some i) (bracket : i.IsBracket) :
    ∃ c' i', program[jumps.partner offset]? = some c' ∧ Instruction.ofByte? c' = some i' ∧
      i'.IsBracket := by
  obtain ⟨other, pair⟩ := exists_mem_pairs_of_link linked found known bracket
  obtain ⟨_, _, rfl⟩ := link_eq_ok_iff.mp linked
  have partner : ((Brackets.matching program).table program.length).partner offset = other := by
    rcases pair with member | member
    · exact (Brackets.partner_of_mem member).1
    · exact (Brackets.partner_of_mem member).2
  have entered : other ∈ Brackets.offsetsOf (Brackets.matching program).pairs := by
    rcases pair with member | member
    · exact List.mem_flatMap.mpr ⟨_, member, by simp⟩
    · exact List.mem_flatMap.mpr ⟨_, member, by simp⟩
  have read : other ∈ (Brackets.matching program).offsets := List.mem_append_left _ entered
  rcases Brackets.Matching.bracket_of_mem_offsets_readAll read with
    before | ⟨n, c', i', place, found', known', bracket'⟩
  · cases before
  · rw [Nat.zero_add] at place
    rw [partner, place]
    exact ⟨c', i', found', known', bracket'⟩

end Partners

end TapeMachine
