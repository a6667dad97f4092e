import TapeMachine.Image
/-!
# Restoring an image

Restoring makes its checks one after another and changes the machine only when all have passed. This
is what passing them all means.
-/

set_option autoImplicit false
set_option relaxedAutoImplicit false

namespace TapeMachine

theorem RunState.ofInt?_eq_some_iff {n : Int} {state : RunState} :
    RunState.ofInt? n = some state ↔ n = state.toNat := by
  unfold RunState.ofInt?
  constructor
  · intro known
    repeat' split at known
    all_goals cases known <;> assumption
  · rintro rfl
    cases state <;> rfl

theorem Tape.ofCells?_eq_some_iff {cells : List UInt8} {pointer : Nat} {t : Tape} :
    Tape.ofCells? cells pointer = some t ↔ t.cells.toList = cells ∧ t.pointer = pointer := by
  unfold Tape.ofCells?
  constructor
  · intro placed
    split at placed
    · cases placed
      exact ⟨rfl, rfl⟩
    · cases placed
  · rintro ⟨rfl, rfl⟩
    have inside : t.pointer < t.cells.toList.length := by
      rw [Array.length_toList]
      exact t.pointer_lt
    rw [dif_pos inside]

/-- When a run state agrees with a program counter and the unread input. -/
def RunState.Agrees (program : List UInt8) (pc : Nat) (unread : List UInt8) : RunState → Prop
  | .running => pc ≠ program.length
  | .waiting => program[pc]? = some Instruction.input.toByte ∧ unread = []
  | .halted => pc = program.length

theorem Image.runState_eq_ok_iff {img : Image} {program : List UInt8} {pc : Nat} {state : RunState} :
    img.runState program pc = .ok state ↔
      img.state.toInt = state.toNat ∧ state.Agrees program pc (img.input.getD []) := by
  rw [← RunState.ofInt?_eq_some_iff]
  unfold Image.runState
  cases number : RunState.ofInt? img.state.toInt with
  | none => simp
  | some known =>
      cases known with
      | running =>
          by_cases ended : pc = program.length <;> cases state <;> simp [ended, RunState.Agrees]
      | waiting =>
          by_cases wants : program[pc]? = some Instruction.input.toByte
          · cases unread : img.input.getD [] with
            | nil => cases state <;> simp [wants, RunState.Agrees]
            | cons c rest => cases state <;> simp [wants, RunState.Agrees]
          · cases state <;> simp [wants, RunState.Agrees]
      | halted =>
          by_cases ended : pc = program.length <;> cases state <;> simp [ended, RunState.Agrees]

theorem Image.runState_of_running_at_end {img : Image} {program : List UInt8}
    (number : img.state.toInt = RunState.running.toNat) :
    img.runState program program.length = .error .runningAtEnd := by
  rw [Image.runState, RunState.ofInt?_eq_some_iff.mpr number]
  simp

namespace Machine

/-- The machine that an image describes, with the given parts read from it. -/
def restored (m : Machine) (img : Image) (tape : Tape) (state : RunState) (jumps : JumpTable) :
    Machine :=
  { m.install (img.program.getD []) jumps with
    pc := img.pc.toInt.toNat
    state := state
    count := img.count
    tape := tape
    input := m.input.refill (img.input.getD [])
    output := m.output.refill (img.output.getD []) }

structure Locates (m : Machine) (img : Image) (tape : Tape) : Prop where
  cells : (img.cells.getD []).length = m.tape.size
  pointer : 0 ≤ img.pointer.toInt
  tape : Tape.ofCells? (img.cells.getD []) img.pointer.toInt.toNat = some tape
  pc : 0 ≤ img.pc.toInt
  pc_le : img.pc.toInt ≤ (img.program.getD []).length

/-- The checks that an image has to pass, with the parts read from it. -/
structure Accepts (m : Machine) (img : Image) (tape : Tape) (state : RunState) (jumps : JumpTable) :
    Prop extends Locates m img tape where
  state : img.runState (img.program.getD []) img.pc.toInt.toNat = .ok state
  input : (img.input.getD []).length ≤ m.input.capacity
  output : (img.output.getD []).length ≤ m.output.capacity
  linked : link (img.program.getD []) = .ok jumps

theorem Locates.restore_eq {m : Machine} {img : Image} {tape : Tape} (located : m.Locates img tape) :
    m.restore img =
      match img.runState (img.program.getD []) img.pc.toInt.toNat with
      | .error e => .error e
      | .ok state =>
        if m.input.capacity < (img.input.getD []).length then
          .error (.inputFull (img.input.getD []).length)
        else if m.output.capacity < (img.output.getD []).length then
          .error (.outputFull (img.output.getD []).length)
        else
          match link (img.program.getD []) with
          | .error e => .error (.mismatch e)
          | .ok jumps => .ok (m.restored img tape state jumps) := by
  have range : (img.pc.toInt < 0 || (img.program.getD []).length < img.pc.toInt) = false := by
    have := located.pc
    have := located.pc_le
    simp only [Bool.or_eq_false_iff, decide_eq_false_iff_not]
    omega
  have pointer : ¬ img.pointer.toInt < 0 := by
    have := located.pointer
    omega
  unfold restore
  simp only [located.cells, located.tape, range, pointer, ne_eq, not_true_eq_false, if_false,
    Bool.false_eq_true]
  rfl

theorem Accepts.size_tape {m : Machine} {img : Image} {tape : Tape} {state : RunState}
    {jumps : JumpTable} (passes : m.Accepts img tape state jumps) : tape.size = m.tape.size := by
  have cells := (Tape.ofCells?_eq_some_iff.mp passes.tape).1
  rw [← passes.cells, ← cells, Tape.size, Array.length_toList]

theorem restore_eq_ok_iff {m m' : Machine} {img : Image} :
    m.restore img = .ok m' ↔
      ∃ tape state jumps, m.Accepts img tape state jumps ∧ m' = m.restored img tape state jumps := by
  constructor
  · intro done
    unfold restore at done
    simp only [] at done
    split at done
    · cases done
    case isFalse cells =>
      split at done
      · cases done
      case h_2 tape placed =>
        split at done
        · cases done
        case isFalse range =>
          split at done
          · cases done
          case h_2 state checked =>
            split at done
            · cases done
            case isFalse input =>
              split at done
              · cases done
              case isFalse output =>
                split at done
                · cases done
                case h_2 jumps linked =>
                  have pointer : ¬ img.pointer.toInt < 0 := by
                    intro below
                    simp [below] at placed
                  rw [if_neg pointer] at placed
                  simp only [Bool.or_eq_true, decide_eq_true_eq, not_or] at range
                  refine ⟨tape, state, jumps, ⟨⟨by omega, by omega, placed, by omega, by omega⟩,
                    checked, by omega, by omega, linked⟩, ?_⟩
                  simp only [Except.ok.injEq] at done
                  exact done.symm
  · rintro ⟨tape, state, jumps, passes, rfl⟩
    rw [passes.toLocates.restore_eq]
    simp only [passes.state, passes.linked, Nat.not_lt.mpr passes.input,
      Nat.not_lt.mpr passes.output, if_false]

end Machine

end TapeMachine
