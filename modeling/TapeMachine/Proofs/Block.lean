import TapeMachine.Proofs.Matching
/-!
# Programs as trees

A program whose brackets match is a tree of actions and loops in exactly one way. Reading it from its
end needs no more than the blocks that stand after the closing brackets passed so far. The matching of
the text of a tree pairs the two brackets of each loop and leaves nothing over.
-/

set_option autoImplicit false
set_option relaxedAutoImplicit false

namespace TapeMachine

inductive Action where
  | increment
  | decrement
  | right
  | left
  | input
  | output
  | comment (byte : UInt8) (unknown : Instruction.ofByte? byte = none)
  deriving DecidableEq

def Action.instruction? : Action → Option Instruction
  | .increment => some .increment
  | .decrement => some .decrement
  | .right => some .right
  | .left => some .left
  | .input => some .input
  | .output => some .output
  | .comment _ _ => none

def Action.toByte : Action → UInt8
  | .increment => Instruction.increment.toByte
  | .decrement => Instruction.decrement.toByte
  | .right => Instruction.right.toByte
  | .left => Instruction.left.toByte
  | .input => Instruction.input.toByte
  | .output => Instruction.output.toByte
  | .comment byte _ => byte

/-- What a byte means to the shape of a program. -/
inductive Symbol where
  | action (a : Action)
  | opening
  | closing
  deriving DecidableEq

def Symbol.toByte : Symbol → UInt8
  | .action a => a.toByte
  | .opening => Instruction.loopStart.toByte
  | .closing => Instruction.loopEnd.toByte

def Symbol.ofByte (byte : UInt8) : Symbol :=
  match known : Instruction.ofByte? byte with
  | none => .action (.comment byte known)
  | some .increment => .action .increment
  | some .decrement => .action .decrement
  | some .right => .action .right
  | some .left => .action .left
  | some .input => .action .input
  | some .output => .action .output
  | some .loopStart => .opening
  | some .loopEnd => .closing

/-- A sequence of actions and loops. -/
inductive Block where
  | empty
  | action (a : Action) (rest : Block)
  | loop (body rest : Block)
  deriving DecidableEq

namespace Block

def text : Block → List UInt8
  | .empty => []
  | .action a rest => a.toByte :: rest.text
  | .loop body rest => Symbol.opening.toByte :: (body.text ++ Symbol.closing.toByte :: rest.text)

def length : Block → Nat
  | .empty => 0
  | .action _ rest => rest.length + 1
  | .loop body rest => body.length + rest.length + 2

def append : Block → Block → Block
  | .empty, b => b
  | .action a rest, b => .action a (rest.append b)
  | .loop body rest, b => .loop body (rest.append b)

/-- The block at the front of a text, and the blocks after the closing brackets without partner that
stand in it; `none` if an opening bracket lacks its partner. -/
def read? : List UInt8 → Option (Block × List Block)
  | [] => some (.empty, [])
  | byte :: rest =>
    match read? rest with
    | none => none
    | some (b, after) =>
      match Symbol.ofByte byte, after with
      | .action a, after => some (.action a b, after)
      | .closing, after => some (.empty, b :: after)
      | .opening, next :: after => some (.loop b next, after)
      | .opening, [] => none

def parse? (program : List UInt8) : Option Block :=
  match read? program with
  | some (b, []) => some b
  | _ => none

/-- The offsets of the brackets of a block that starts at an offset, last closed first. -/
def pairs : Block → Nat → List (Nat × Nat)
  | .empty, _ => []
  | .action _ rest, offset => rest.pairs (offset + 1)
  | .loop body rest, offset =>
    rest.pairs (offset + body.length + 2) ++
      (offset, offset + body.length + 1) :: body.pairs (offset + 1)

end Block

theorem Action.ofByte?_toByte (a : Action) : Instruction.ofByte? a.toByte = a.instruction? := by
  cases a with
  | comment byte unknown => exact unknown
  | _ => rfl

theorem Symbol.toByte_ofByte (byte : UInt8) : (ofByte byte).toByte = byte := by
  unfold ofByte
  split
  case h_1 => rfl
  all_goals
    rename_i known
    exact (Instruction.ofByte?_eq_some_iff.mp known).symm

theorem Symbol.ofByte_toByte (s : Symbol) : ofByte s.toByte = s := by
  cases s with
  | opening => rfl
  | closing => rfl
  | action a =>
      cases a with
      | comment byte unknown =>
          unfold ofByte toByte Action.toByte
          split
          case h_1 => rfl
          all_goals
            rename_i known
            simp only [unknown, reduceCtorEq] at known
      | _ => rfl

namespace Brackets

theorem Matching.read_action (m : Matching) (offset : Nat) (a : Action) :
    m.read offset a.toByte = m := by
  unfold read
  rw [a.ofByte?_toByte]
  cases a <;> rfl

theorem Matching.read_opening (m : Matching) (offset : Nat) :
    m.read offset Symbol.opening.toByte = { m with opened := offset :: m.opened } := by
  rfl

theorem Matching.read_closing_of_nil {m : Matching} (offset : Nat) (none_open : m.opened = []) :
    m.read offset Symbol.closing.toByte = { m with unopened := offset :: m.unopened } := by
  simp [read, Symbol.toByte, none_open]

theorem Matching.read_closing_of_cons {m : Matching} {start : Nat} {others : List Nat}
    (offset : Nat) (some_open : m.opened = start :: others) :
    m.read offset Symbol.closing.toByte =
      { m with pairs := (start, offset) :: m.pairs, opened := others } := by
  simp [read, Symbol.toByte, some_open]

private theorem Matching.unopened_ne_nil_of_readAll {m : Matching} (left : m.unopened ≠ [])
    (offset : Nat) (bytes : List UInt8) : (m.readAll offset bytes).unopened ≠ [] := by
  induction bytes generalizing m offset with
  | nil => exact left
  | cons byte rest ih =>
      rw [readAll]
      refine ih ?_ _
      rw [← Symbol.toByte_ofByte byte]
      cases Symbol.ofByte byte with
      | action a =>
          rw [Symbol.toByte, read_action]
          exact left
      | opening =>
          rw [read_opening]
          exact left
      | closing =>
          cases some_open : m.opened with
          | nil =>
              rw [read_closing_of_nil _ some_open]
              exact List.cons_ne_nil _ _
          | cons start others =>
              rw [read_closing_of_cons _ some_open]
              exact left

end Brackets

namespace Block

open Brackets

@[simp]
theorem length_text (b : Block) : b.text.length = b.length := by
  induction b with
  | empty => rfl
  | action a rest ih => simp [text, length, ih]
  | loop body rest bodyIh restIh =>
      simp only [text, length, List.length_cons, List.length_append, bodyIh, restIh]
      omega

@[simp]
theorem append_empty (b : Block) : b.append .empty = b := by
  induction b with
  | empty => rfl
  | action a rest ih => rw [append, ih]
  | loop body rest _ ih => rw [append, ih]

theorem read?_text {rest : List UInt8} {next : Block} {after : List Block} (b : Block)
    (read : read? rest = some (next, after)) :
    read? (b.text ++ rest) = some (b.append next, after) := by
  induction b generalizing rest next after with
  | empty => exact read
  | action a tail ih =>
      have symbol := Symbol.ofByte_toByte (.action a)
      simp only [Symbol.toByte] at symbol
      simp only [text, List.cons_append, read?, ih read, symbol, append]
  | loop body tail bodyIh tailIh =>
      have closed : read? (Symbol.closing.toByte :: (tail.text ++ rest)) =
          some (.empty, tail.append next :: after) := by
        simp only [read?, tailIh read, Symbol.ofByte_toByte]
      have inner := bodyIh closed
      rw [append_empty] at inner
      simp only [text, List.cons_append, List.append_assoc, read?, inner, Symbol.ofByte_toByte, append]

theorem text_of_read? {bytes : List UInt8} {b : Block} {after : List Block}
    (read : read? bytes = some (b, after)) :
    b.text ++ after.flatMap (fun next => Symbol.closing.toByte :: next.text) = bytes := by
  induction bytes generalizing b after with
  | nil =>
      simp only [read?, Option.some.injEq, Prod.mk.injEq] at read
      obtain ⟨rfl, rfl⟩ := read
      rfl
  | cons byte rest ih =>
      have here := Symbol.toByte_ofByte byte
      rw [read?] at read
      cases later : read? rest with
      | none => simp [later] at read
      | some r =>
          obtain ⟨inner, others⟩ := r
          have known := ih later
          rw [later] at read
          cases symbol : Symbol.ofByte byte with
          | action a =>
              simp only [symbol, Option.some.injEq, Prod.mk.injEq] at read
              obtain ⟨rfl, rfl⟩ := read
              rw [symbol, Symbol.toByte] at here
              rw [text, List.cons_append, known, here]
          | closing =>
              simp only [symbol, Option.some.injEq, Prod.mk.injEq] at read
              obtain ⟨rfl, rfl⟩ := read
              rw [symbol] at here
              rw [text, List.nil_append, List.flatMap_cons, List.cons_append, known, here]
          | opening =>
              cases others with
              | nil => simp [symbol] at read
              | cons next others =>
                  simp only [symbol, Option.some.injEq, Prod.mk.injEq] at read
                  obtain ⟨rfl, rfl⟩ := read
                  rw [symbol] at here
                  rw [List.flatMap_cons, List.cons_append] at known
                  rw [text, List.cons_append, List.append_assoc, List.cons_append, known, here]

theorem parse?_eq_some_iff {program : List UInt8} {b : Block} :
    parse? program = some b ↔ b.text = program := by
  constructor
  · intro parsed
    unfold parse? at parsed
    split at parsed
    case h_1 read =>
      cases parsed
      simpa using text_of_read? read
    case h_2 => cases parsed
  · rintro rfl
    have read : read? (b.text ++ []) = some (b.append .empty, []) := read?_text b rfl
    rw [List.append_nil, append_empty] at read
    rw [parse?, read]

private theorem exists_read? {m : Matching} {bytes : List UInt8} (offset : Nat)
    (unopened : (m.readAll offset bytes).unopened = [])
    (opened : (m.readAll offset bytes).opened = []) :
    ∃ b after, read? bytes = some (b, after) ∧ after.length = m.opened.length := by
  induction bytes generalizing m offset with
  | nil =>
      rw [Matching.readAll] at opened
      exact ⟨.empty, [], rfl, by rw [opened]; rfl⟩
  | cons byte rest ih =>
      rw [Matching.readAll] at unopened opened
      obtain ⟨b, after, read, depth⟩ := ih _ unopened opened
      have here := Symbol.toByte_ofByte byte
      cases symbol : Symbol.ofByte byte with
      | action a =>
          rw [symbol, Symbol.toByte] at here
          rw [← here, Matching.read_action] at depth
          exact ⟨.action a b, after, by simp only [read?, read, symbol], depth⟩
      | opening =>
          rw [symbol] at here
          rw [← here, Matching.read_opening, List.length_cons] at depth
          obtain ⟨next, others, rfl⟩ := List.exists_cons_of_length_eq_add_one depth
          rw [List.length_cons, Nat.add_right_cancel_iff] at depth
          exact ⟨.loop b next, others, by simp only [read?, read, symbol], depth⟩
      | closing =>
          rw [symbol] at here
          cases some_open : m.opened with
          | nil =>
              rw [← here, Matching.read_closing_of_nil _ some_open] at unopened
              exact absurd unopened
                (Matching.unopened_ne_nil_of_readAll (List.cons_ne_nil _ _) _ _)
          | cons start others =>
              rw [← here, Matching.read_closing_of_cons _ some_open] at depth
              refine ⟨.empty, b :: after, by simp only [read?, read, symbol], ?_⟩
              rw [List.length_cons, List.length_cons, depth]

/-- A program that links is the text of a tree. -/
theorem exists_parse?_of_link {program : List UInt8} {jumps : JumpTable}
    (linked : link program = .ok jumps) : ∃ b, parse? program = some b := by
  obtain ⟨unopened, opened, _⟩ := link_eq_ok_iff.mp linked
  obtain ⟨b, after, read, depth⟩ := exists_read? 0 unopened opened
  have nothing : after = [] := List.length_eq_zero_iff.mp depth
  subst nothing
  exact ⟨b, by rw [parse?, read]⟩

private theorem readAll_text (b : Block) (m : Matching) (offset : Nat) (rest : List UInt8) :
    m.readAll offset (b.text ++ rest) =
      Matching.readAll { m with pairs := b.pairs offset ++ m.pairs } (offset + b.length) rest := by
  induction b generalizing m offset rest with
  | empty => rfl
  | action a tail ih =>
      rw [text, List.cons_append, Matching.readAll, Matching.read_action, ih, pairs, length]
      congr 1
      omega
  | loop body tail bodyIh tailIh =>
      rw [text, List.cons_append, Matching.readAll, Matching.read_opening, List.append_assoc, bodyIh,
        List.cons_append, Matching.readAll, Matching.read_closing_of_cons _ rfl, tailIh, pairs, length]
      have close : offset + 1 + body.length = offset + body.length + 1 := by omega
      have after : offset + 1 + body.length + 1 = offset + body.length + 2 := by omega
      have ends : offset + 1 + body.length + 1 + tail.length =
          offset + (body.length + tail.length + 2) := by omega
      rw [ends, after, close, List.append_assoc, List.cons_append]

theorem matching_text (b : Block) : matching b.text = { Matching.empty with pairs := b.pairs 0 } := by
  have read := readAll_text b Matching.empty 0 []
  rw [List.append_nil] at read
  rw [matching, read, Matching.readAll]
  simp [Matching.empty]

theorem pairs_matching_text (b : Block) : (matching b.text).pairs = b.pairs 0 := by
  rw [matching_text]

theorem exists_link_text (b : Block) : ∃ jumps, link b.text = .ok jumps := by
  refine ⟨_, link_eq_ok_iff.mpr ⟨?_, ?_, rfl⟩⟩
  · rw [matching_text, Matching.empty]
  · rw [matching_text, Matching.empty]

end Block

end TapeMachine
