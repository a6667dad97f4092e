import TapeMachine.Proofs.Consistency
/-!
# The representation of a machine

What holds of the parts of every reachable machine, with the sizes that it was made with. It follows
that no index is ever out of range: a machine that checks every index into its program, its jump
table, its tape and its queues before it uses it runs as the machine itself does.
-/

set_option autoImplicit false
set_option relaxedAutoImplicit false

namespace TapeMachine

namespace Tape

def read? (t : Tape) : Option UInt8 := t.cells[t.pointer]?

def write? (t : Tape) (value : UInt8) : Option Tape :=
  if h : t.pointer < t.cells.size then
    some ⟨t.cells.set t.pointer value h, t.pointer, by simpa using h⟩
  else none

private theorem read?_eq (t : Tape) : t.read? = some t.read := by
  obtain ⟨cells, pointer, inside⟩ := t
  simp [read?, read, inside]

private theorem write?_eq (t : Tape) (value : UInt8) : t.write? value = some (t.write value) := by
  obtain ⟨cells, pointer, inside⟩ := t
  simp [write?, write, inside]

end Tape

namespace Buffer

def store? (data : Array UInt8) (index : Nat) : List UInt8 → Option (Array UInt8)
  | [] => some data
  | c :: rest =>
    if h : index < data.size then store? (data.set index c h) (index + 1) rest else none

private theorem store?_eq {data : Array UInt8} {index : Nat} {bytes : List UInt8}
    (fits : index + bytes.length ≤ data.size) :
    store? data index bytes = some (store data index bytes) := by
  induction bytes generalizing data index with
  | nil => rfl
  | cons c rest ih =>
      rw [List.length_cons] at fits
      have inside : index < data.size := by omega
      have later : index + 1 + rest.length ≤ (data.set index c inside).size := by
        rw [Array.size_set]
        omega
      rw [store?, dif_pos inside, ih later, store, Array.setIfInBounds, dif_pos inside]

/-- The indices of a queue are in range: its cursors, the places to which it moves its unread bytes,
those where it then stores the bytes that it accepts, and those where it stores the bytes of an image.
-/
structure Indexed (b : Buffer) : Prop where
  start_le : b.start ≤ b.stop
  stop_le : b.stop ≤ b.capacity
  compact : store? b.data 0 b.unread = some b.compact.data
  extend (count : Nat) (bytes : List UInt8) :
    store? (b.makeRoom count).data (b.makeRoom count).stop
      (bytes.take ((b.makeRoom count).capacity - (b.makeRoom count).stop)) =
        some ((b.makeRoom count).extend bytes).data
  refill (bytes : List UInt8) : store? b.data 0 (bytes.take b.capacity) = some (b.refill bytes).data

private theorem store?_extend (b : Buffer) (bytes : List UInt8) :
    store? b.data b.stop (bytes.take (b.capacity - b.stop)) = some (b.extend bytes).data := by
  have stop_le := b.stop_le
  refine store?_eq ?_
  rw [List.length_take, capacity]
  omega

theorem indexed (b : Buffer) : b.Indexed := by
  have unread : 0 + b.unread.length ≤ b.data.size := by
    rw [Nat.zero_add, length_unread]
    exact b.length_le_capacity
  exact ⟨b.start_le, b.stop_le, store?_eq unread, fun count => (b.makeRoom count).store?_extend,
    b.reset.store?_extend⟩

def checkedNext (b : Buffer) : Option (Option (UInt8 × Buffer)) :=
  if h : b.start < b.stop then
    match b.data[b.start]? with
    | none => none
    | some c => some (some (c, ⟨b.data, b.start + 1, b.stop, h, b.stop_le⟩))
  else some none

def checkedAppend (b : Buffer) (c : UInt8) : Option (Option Buffer) :=
  if b.length < b.capacity then
    let roomy := b.makeRoom 1
    if h : roomy.stop < roomy.data.size then
      some (some ⟨roomy.data.set roomy.stop c h, roomy.start, roomy.stop + 1,
        Nat.le_succ_of_le roomy.start_le, by rw [Array.size_set]; exact h⟩)
    else none
  else some none

private theorem checkedNext_eq (b : Buffer) : b.checkedNext = some b.next? := by
  have stop_le := b.stop_le
  by_cases some_left : b.start < b.stop
  · have inside : b.start < b.data.size := by omega
    simp [checkedNext, next?, some_left, inside]
  · simp [checkedNext, next?, some_left]

private theorem checkedAppend_eq (b : Buffer) (c : UInt8) :
    b.checkedAppend c = some (if h : b.length < b.capacity then some (b.push c h) else none) := by
  by_cases room : b.length < b.capacity
  · simp only [checkedAppend, room, b.stop_makeRoom_lt room, if_true, dif_pos]
    rfl
  · simp [checkedAppend, room]

end Buffer

namespace Machine

variable {m m' : Machine}

def checkedTarget (m : Machine) (offset : Nat) : Option Nat :=
  m.tape.read?.bind fun value =>
    if value = 0 then (m.jumps.paired? offset).map (· + 1) else some (offset + 1)

/-- One attempt with every index checked; `none` if one is out of range. -/
def checkedExecute (m : Machine) : Option Instruction → Option Attempt
  | none => some (.executed (m.goto (m.pc + 1)))
  | some .increment =>
    m.tape.read?.bind fun value => (m.tape.write? (value + 1)).map fun tape =>
      .executed ({ m with tape := tape }.goto (m.pc + 1))
  | some .decrement =>
    m.tape.read?.bind fun value => (m.tape.write? (value - 1)).map fun tape =>
      .executed ({ m with tape := tape }.goto (m.pc + 1))
  | some .right => some (.executed ({ m with tape := m.tape.moveRight }.goto (m.pc + 1)))
  | some .left => some (.executed ({ m with tape := m.tape.moveLeft }.goto (m.pc + 1)))
  | some .loopStart => (m.checkedTarget m.pc).map fun pc => .executed (m.goto pc)
  | some .loopEnd =>
    (m.jumps.paired? m.pc).bind fun start =>
      (m.checkedTarget start).map fun pc => .executed (m.goto pc)
  | some .input =>
    m.input.checkedNext.bind fun
      | none => some (.starved { m with state := .waiting })
      | some (c, rest) => (m.tape.write? c).map fun tape =>
        .executed ({ m with tape := tape, input := rest, state := .running }.goto (m.pc + 1))
  | some .output =>
    m.tape.read?.bind fun value => (m.output.checkedAppend value).map fun
      | none => .refused m
      | some queue => .executed ({ m with output := queue }.goto (m.pc + 1))

/-- A run with every index checked. The outer `none` is an index out of range, and the inner one is
that the fuel did not suffice. -/
def checkedExec (bound : Bound) : (fuel executed : Nat) → Machine → Option (Option Stop)
  | 0, _, _ => some none
  | fuel + 1, executed, m =>
    if m.program.size ≤ m.pc then some (some (.halted { m with state := .halted }))
    else if bound.reached m.pc executed then some (some (.bounded m))
    else
      m.program[m.pc]?.bind fun byte =>
        (m.checkedExecute (Instruction.ofByte? byte)).bind fun
          | .executed m => checkedExec bound fuel (executed + 1) m
          | .starved m => some (some (.starved m))
          | .refused m => some (some (.refused m))

private theorem checkedTarget_eq {offset other : Nat} (paired : m.jumps.paired? offset = some other) :
    m.checkedTarget offset = some (m.loopTarget offset) := by
  rw [checkedTarget, m.tape.read?_eq, loopTarget, JumpTable.partner_eq_getD, paired]
  by_cases zero : m.tape.read = 0 <;> simp [zero]

private theorem Sound.checkedExecute_eq (sound : m.Sound) {byte : UInt8}
    (fetched : m.program[m.pc]? = some byte) :
    m.checkedExecute (Instruction.ofByte? byte) = some (m.execute (Instruction.ofByte? byte)) := by
  have found : m.program.toList[m.pc]? = some byte := by rw [Array.getElem?_toList, fetched]
  cases known : Instruction.ofByte? byte with
  | none => rfl
  | some i =>
      cases i
      case right | left => rfl
      case increment | decrement =>
        simp [checkedExecute, execute, Tape.read?_eq, Tape.write?_eq, Tape.increment, Tape.decrement]
      case loopStart =>
        obtain ⟨close, paired, _⟩ := exists_paired?_of_link sound.linked found known (Or.inl rfl)
        simp [checkedExecute, execute, checkedTarget_eq paired]
      case loopEnd =>
        -- The loop test is made at the opening bracket, whose own entry leads back here.
        obtain ⟨start, paired, back⟩ := exists_paired?_of_link sound.linked found known (Or.inr rfl)
        have partner : m.jumps.partner m.pc = start := by
          rw [JumpTable.partner_eq_getD, paired]
          rfl
        simp [checkedExecute, execute, paired, partner, checkedTarget_eq back]
      case input =>
        simp only [checkedExecute, execute, Buffer.checkedNext_eq, Option.bind_some]
        cases m.input.next? with
        | none => rfl
        | some first => simp [Tape.write?_eq]
      case output =>
        simp only [checkedExecute, execute, Buffer.checkedAppend_eq, Tape.read?_eq, Option.bind_some]
        split <;> rfl

theorem Sound.checkedExec_eq (sound : m.Sound) (live : m.state ≠ .halted) (bound : Bound)
    (fuel executed : Nat) :
    checkedExec bound fuel executed m = some (exec bound fuel executed m) := by
  induction fuel generalizing m executed with
  | zero => rfl
  | succ fuel ih =>
      by_cases inside : m.pc < m.program.size
      · have fetched : m.program[m.pc]? = some m.program[m.pc] := Array.getElem?_eq_getElem inside
        by_cases reached : bound.reached m.pc executed = true
        · simp [checkedExec, exec, inside, reached]
        · simp only [checkedExec, exec, Nat.not_le.mpr inside, if_false, reached, fetched, inside,
            dif_pos, Option.bind_some, sound.checkedExecute_eq fetched, Bool.false_eq_true]
          cases attempt : m.execute (Instruction.ofByte? m.program[m.pc]) with
          | executed m₁ =>
              -- An executed instruction keeps the machine sound, so the next checks pass as well.
              have first : m.Executes m₁ := ⟨_, fetched, attempt⟩
              exact ih (sound.of_executes live first) (first.live live) (executed + 1)
          | starved m₁ => rfl
          | refused m₁ => rfl
      · simp [checkedExec, exec, inside, Nat.le_of_not_lt inside]

private theorem Consistent.checkedExec_eq (consistent : m.Consistent) (bound : Bound)
    (fuel executed : Nat) :
    checkedExec bound fuel executed m = some (exec bound fuel executed m) := by
  by_cases halted : m.state = .halted
  · have ended := consistent.halted halted
    cases fuel with
    | zero => rfl
    | succ fuel => simp [checkedExec, exec, ended]
  · exact consistent.toSound.checkedExec_eq halted bound fuel executed

/-- What holds of the parts of a machine that was made with the given sizes. -/
structure Invariant (s : Sizes) (m : Machine) : Prop where
  linked : link m.program.toList = .ok m.jumps
  size_jumps : m.jumps.size = m.program.size
  pc_le : m.pc ≤ m.program.size
  halted : m.state = .halted → m.pc = m.program.size
  ended : m.prepared = true → m.pc = m.program.size →
    m.state = .halted ∨ m.program = #[] ∧ m.state = .running
  waiting : m.state = .waiting →
    m.pc < m.program.size ∧ m.program[m.pc]? = some Instruction.input.toByte
  pointer_lt : m.tape.pointer < m.tape.size
  input : m.input.start ≤ m.input.stop ∧ m.input.stop ≤ m.input.capacity
  output : m.output.start ≤ m.output.stop ∧ m.output.stop ≤ m.output.capacity
  cells : m.tape.size = s.cells
  inputSize : m.input.capacity = s.input
  outputSize : m.output.capacity = s.output

theorem Consistent.invariant {s : Sizes} (consistent : m.Consistent)
    (same : (ofSizes s).SameSizes m) : m.Invariant s where
  linked := consistent.linked
  size_jumps := size_of_link consistent.linked
  pc_le := consistent.pc_le
  halted := consistent.halted
  ended prepared ended := by
    refine (consistent.ended prepared ended).imp_right fun ⟨empty, running⟩ => ⟨?_, running⟩
    exact Array.eq_empty_of_size_eq_zero empty
  waiting waiting :=
    have wants := consistent.waiting waiting
    ⟨(Array.getElem?_eq_some_iff.mp wants).1, wants⟩
  pointer_lt := m.tape.pointer_lt
  input := ⟨m.input.start_le, m.input.stop_le⟩
  output := ⟨m.output.start_le, m.output.stop_le⟩
  cells := by simpa using same.cells
  inputSize := by simpa using same.input
  outputSize := by simpa using same.output

/-- Requests of every kind, refused or not, lead from a new machine to machines that keep the
invariant with the sizes of the new one. If none of them appended to the input queue directly, a
machine that waits has no input. No index of a run is out of range, nor is one of a queue. -/
theorem representation_invariant {sizes : List (Part × Int)} {start m : Machine}
    (created : create sizes = .ok start) (led : start.Leads (fun _ => True) m) :
    ∃ s, Sizes.standard.setAll sizes = .ok s ∧ m.Invariant s ∧
      (start.Leads Request.Fair m → m.state = .waiting → m.input.unread = []) ∧
      (∀ bound fuel executed,
        checkedExec bound fuel executed m = some (exec bound fuel executed m)) ∧
      m.input.Indexed ∧ m.output.Indexed := by
  obtain ⟨s, set, rfl⟩ := create_eq_ok_iff.mp created
  have consistent := (consistent_create created).leads led
  refine ⟨s, set, consistent.invariant led.sameSizes, fun fair => ?_, consistent.checkedExec_eq,
    m.input.indexed, m.output.indexed⟩
  exact (settled_create created).leads_fair (consistent_create created) fair

/-- A waiting machine, after input that did not all fit, a program that does not link, an image that
is refused and operations on the tape and on the queues themselves. -/
theorem representation_invariant_waiting : ∃ start m answers s,
    create [(.cells, 2), (.input, 1), (.output, 1)] = .ok start ∧
    start.respond [.prepare [44, 91, 46, 44, 93], .call (.write [7, 8]), .prepare [93],
      .restore ⟨some [43], 0, 0, 5, some [0, 0], none, none, 1, 1, 0⟩, .call (.run 9),
      .tape .moveLeft, .output .next, .input .drain] = some (m, answers) ∧
    m.state = .waiting ∧ m.input.unread = [] ∧ m.Invariant s ∧
    ∀ bound fuel, checkedExec bound fuel 0 m = some (exec bound fuel 0 m) := by
  obtain ⟨start, created, ran⟩ : ∃ start,
      create [(.cells, 2), (.input, 1), (.output, 1)] = .ok start ∧
      (start.respond [.prepare [44, 91, 46, 44, 93], .call (.write [7, 8]), .prepare [93],
        .restore ⟨some [43], 0, 0, 5, some [0, 0], none, none, 1, 1, 0⟩, .call (.run 9),
        .tape .moveLeft, .output .next, .input .drain]).map (fun reply => reply.1.state) =
          some .waiting :=
    ⟨_, rfl, by decide +kernel⟩
  obtain ⟨⟨m, answers⟩, done, waiting⟩ := Option.map_eq_some_iff.mp ran
  have fair : start.Leads Request.Fair m :=
    Leads.refl.respond (by simp [Request.Fair, Buffer.Operation.Adds]) done
  obtain ⟨s, _, invariant, settled, indexed, _⟩ :=
    representation_invariant created (fair.mono fun _ _ => trivial)
  exact ⟨start, m, answers, s, created, done, waiting, settled fair waiting, invariant,
    fun bound fuel => indexed bound fuel 0⟩

end Machine

end TapeMachine
