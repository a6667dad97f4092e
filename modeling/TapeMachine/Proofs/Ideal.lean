import TapeMachine.Tape
import TapeMachine.Brackets
/-!
# The ideal machine

A machine without queues: all of its input lies before it as a list, and its output is a list that
never fills up. It stops only at the end of its program, or at an input instruction once the whole
input has been read.
-/

set_option autoImplicit false
set_option relaxedAutoImplicit false

namespace TapeMachine

/-- A program with its jump table. -/
structure Code where
  program : List UInt8
  jumps : JumpTable
  linked : link program = .ok jumps

/-- The state of an ideal machine. -/
@[ext]
structure Config where
  pc : Nat
  tape : Tape
  input : List UInt8
  output : List UInt8
  deriving DecidableEq

/-- The same state with output before that of the machine and input after that of the machine. -/
def Config.within (c : Config) (before after : List UInt8) : Config :=
  { c with input := c.input ++ after, output := before ++ c.output }

namespace Code

def target (k : Code) (tape : Tape) (offset : Nat) : Nat :=
  if tape.read = 0 then k.jumps.partner offset + 1 else offset + 1

/-- The effect of one instruction, or of a comment; `none` if there is no input for it. -/
def effect? (k : Code) (c : Config) : Option Instruction → Option Config
  | none => some { c with pc := c.pc + 1 }
  | some .increment => some { c with pc := c.pc + 1, tape := c.tape.increment }
  | some .decrement => some { c with pc := c.pc + 1, tape := c.tape.decrement }
  | some .right => some { c with pc := c.pc + 1, tape := c.tape.moveRight }
  | some .left => some { c with pc := c.pc + 1, tape := c.tape.moveLeft }
  | some .loopStart => some { c with pc := k.target c.tape c.pc }
  | some .loopEnd => some { c with pc := k.target c.tape (k.jumps.partner c.pc) }
  | some .input =>
    match c.input with
    | [] => none
    | byte :: rest => some { c with pc := c.pc + 1, tape := c.tape.write byte, input := rest }
  | some .output => some { c with pc := c.pc + 1, output := c.output ++ [c.tape.read] }

def next? (k : Code) (c : Config) : Option Config :=
  match k.program[c.pc]? with
  | none => none
  | some byte => k.effect? c (Instruction.ofByte? byte)

def advance (k : Code) : Nat → Config → Option Config
  | 0, c => some c
  | n + 1, c =>
    match k.next? c with
    | none => none
    | some c => k.advance n c

def Halted (k : Code) (c : Config) : Prop := k.program.length ≤ c.pc

/-- The machine is at an input instruction and has read all of its input. -/
def Blocked (k : Code) (c : Config) : Prop :=
  k.program[c.pc]? = some Instruction.input.toByte ∧ c.input = []

instance (k : Code) (c : Config) : Decidable (k.Halted c) := Nat.decLe _ _

instance (k : Code) (c : Config) : Decidable (k.Blocked c) := inferInstanceAs (Decidable (_ ∧ _))

end Code

namespace Code

variable {k : Code} {c c' : Config}

private theorem effect?_eq_none_iff {i : Option Instruction} :
    k.effect? c i = none ↔ i = some .input ∧ c.input = [] := by
  cases i with
  | none => simp [effect?]
  | some i =>
      cases i <;> simp only [effect?, reduceCtorEq, false_and, true_and, Option.some.injEq]
      cases c.input <;> simp

theorem next?_eq_none_iff : k.next? c = none ↔ k.Halted c ∨ k.Blocked c := by
  unfold next? Halted Blocked
  cases fetched : k.program[c.pc]? with
  | none =>
      simp only [true_iff]
      exact Or.inl (List.getElem?_eq_none_iff.mp fetched)
  | some byte =>
      have inside : c.pc < k.program.length := (List.getElem?_eq_some_iff.mp fetched).1
      simp only [effect?_eq_none_iff, Instruction.ofByte?_eq_some_iff, Option.some.injEq]
      constructor
      · exact Or.inr
      · rintro (ended | blocked)
        · omega
        · exact blocked

theorem not_halted_of_blocked (blocked : k.Blocked c) : ¬ k.Halted c := by
  have inside : c.pc < k.program.length := (List.getElem?_eq_some_iff.mp blocked.1).1
  unfold Halted
  omega

theorem next?_within (before after : List UInt8) (step : k.next? c = some c') :
    k.next? (c.within before after) = some (c'.within before after) := by
  unfold next? at *
  have same : (c.within before after).pc = c.pc := rfl
  rw [same]
  cases fetched : k.program[c.pc]? with
  | none => simp [fetched] at step
  | some byte =>
      rw [fetched] at step
      cases known : Instruction.ofByte? byte with
      | none =>
          simp only [known, effect?, Option.some.injEq] at step ⊢
          rw [← step]
          rfl
      | some i =>
          cases i
          case input =>
            cases unread : c.input with
            | nil => simp [known, effect?, unread] at step
            | cons first rest =>
                simp only [known, effect?, unread, Option.some.injEq] at step
                simp only [known, effect?, Config.within, unread, List.cons_append]
                rw [← step]
          case output =>
            simp only [known, effect?, Option.some.injEq] at step ⊢
            simp [← step, Config.within]
          all_goals
            simp only [known, effect?, Option.some.injEq] at step ⊢
            rw [← step]
            rfl

theorem advance_add (m n : Nat) : k.advance (m + n) c = (k.advance m c).bind (k.advance n) := by
  induction m generalizing c with
  | zero => simp [advance]
  | succ m ih =>
      rw [show m + 1 + n = m + n + 1 by omega]
      simp only [advance]
      cases k.next? c with
      | none => rfl
      | some c' => exact ih

theorem advance_trans {m n : Nat} {d : Config} (first : k.advance m c = some d)
    (second : k.advance n d = some c') : k.advance (m + n) c = some c' := by
  rw [advance_add, first]
  exact second

theorem advance_within {n : Nat} (before after : List UInt8) (run : k.advance n c = some c') :
    k.advance n (c.within before after) = some (c'.within before after) := by
  induction n generalizing c with
  | zero =>
      simp only [advance, Option.some.injEq] at run ⊢
      rw [run]
  | succ n ih =>
      simp only [advance] at run ⊢
      cases step : k.next? c with
      | none => simp [step] at run
      | some d =>
          rw [step] at run
          rw [next?_within before after step]
          exact ih run

theorem next?_streams (step : k.next? c = some c') :
    c'.input <:+ c.input ∧ c.output <+: c'.output := by
  unfold next? at step
  cases fetched : k.program[c.pc]? with
  | none => simp [fetched] at step
  | some byte =>
      simp only [fetched] at step
      generalize Instruction.ofByte? byte = i at step
      cases i with
      | none =>
          simp only [effect?, Option.some.injEq] at step
          rw [← step]
          exact ⟨List.suffix_refl _, List.prefix_refl _⟩
      | some i =>
          cases i
          case input =>
            cases unread : c.input with
            | nil => simp [effect?, unread] at step
            | cons first rest =>
                simp only [effect?, unread, Option.some.injEq] at step
                rw [← step]
                exact ⟨List.suffix_cons _ _, List.prefix_refl _⟩
          case output =>
            simp only [effect?, Option.some.injEq] at step
            rw [← step]
            exact ⟨List.suffix_refl _, List.prefix_append _ _⟩
          all_goals
            simp only [effect?, Option.some.injEq] at step
            rw [← step]
            exact ⟨List.suffix_refl _, List.prefix_refl _⟩

theorem advance_streams {n : Nat} (run : k.advance n c = some c') :
    c'.input <:+ c.input ∧ c.output <+: c'.output := by
  induction n generalizing c with
  | zero =>
      simp only [advance, Option.some.injEq] at run
      rw [run]
      exact ⟨List.suffix_refl _, List.prefix_refl _⟩
  | succ n ih =>
      rw [advance] at run
      cases step : k.next? c with
      | none => simp [step] at run
      | some d =>
          rw [step] at run
          have first := next?_streams step
          have rest := ih run
          exact ⟨rest.1.trans first.1, first.2.trans rest.2⟩

theorem halted_within (before after : List UInt8) : k.Halted (c.within before after) ↔ k.Halted c :=
  Iff.rfl

theorem blocked_within_nil (before : List UInt8) : k.Blocked (c.within before []) ↔ k.Blocked c := by
  simp [Blocked, Config.within]

theorem advance_before (n : Nat) (before : List UInt8) :
    k.advance n (c.within before []) = (k.advance n c).map fun c => c.within before [] := by
  induction n generalizing c with
  | zero => rfl
  | succ n ih =>
      simp only [advance]
      cases step : k.next? c with
      | none =>
          have stopped : k.next? (c.within before []) = none := by
            rw [next?_eq_none_iff, halted_within, blocked_within_nil, ← next?_eq_none_iff]
            exact step
          rw [stopped]
          rfl
      | some d =>
          rw [next?_within before [] step]
          exact ih

theorem advance_le_of_stopped {m n : Nat} {d : Config} (run : k.advance m c = some c')
    (stopped : k.next? c' = none) (other : k.advance n c = some d) : n ≤ m := by
  rcases Nat.lt_or_ge m n with more | enough
  · obtain ⟨extra, rfl⟩ : ∃ extra, n = m + (extra + 1) := ⟨n - m - 1, by omega⟩
    rw [advance_add, run] at other
    simp [advance, stopped] at other
  · exact enough

theorem exists_advance_of_next? {n : Nat} {d : Config} (step : k.next? c = some d)
    (run : k.advance n c = some c') (stopped : k.next? c' = none) :
    ∃ m, n = m + 1 ∧ k.advance m d = some c' := by
  cases n with
  | zero =>
      simp only [advance, Option.some.injEq] at run
      rw [run, stopped] at step
      cases step
  | succ m =>
      rw [advance, step] at run
      exact ⟨m, rfl, run⟩

/-- The state in which a machine stops, and the number of instructions before it, are unique. -/
theorem stopped_unique {m n : Nat} {d : Config} (run : k.advance m c = some c')
    (stopped : k.next? c' = none) (other : k.advance n c = some d) (stopped' : k.next? d = none) :
    n = m ∧ d = c' := by
  have same : n = m := Nat.le_antisymm (advance_le_of_stopped run stopped other)
    (advance_le_of_stopped other stopped' run)
  subst same
  rw [run, Option.some.injEq] at other
  exact ⟨rfl, other.symm⟩

theorem advance_sub_of_stopped {m n : Nat} {d : Config} (run : k.advance m c = some c')
    (stopped : k.next? c' = none) (other : k.advance n c = some d) :
    k.advance (m - n) d = some c' := by
  have short := advance_le_of_stopped run stopped other
  obtain ⟨rest, rfl⟩ : ∃ rest, m = n + rest := ⟨m - n, by omega⟩
  rw [advance_add, other] at run
  rw [Nat.add_sub_cancel_left]
  exact run

end Code

end TapeMachine
