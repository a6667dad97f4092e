import TapeMachine.Proofs.Calls
import TapeMachine.Proofs.Requests
import TapeMachine.Proofs.Restoring
/-!
# Machines that cannot be told apart

What a queue answers depends on its capacity and its unread bytes only, not on where in its storage
these bytes are. So machines that agree in everything else and whose queues agree in this answer every
sequence of requests alike.
-/

set_option autoImplicit false
set_option relaxedAutoImplicit false

namespace TapeMachine

/-- Two queues with the same capacity and the same unread bytes. -/
structure Buffer.Alike (b b' : Buffer) : Prop where
  capacity : b.capacity = b'.capacity
  unread : b.unread = b'.unread

/-- Two machines that differ at most in how their queues are stored. -/
structure Machine.Alike (m m' : Machine) : Prop where
  program : m.program = m'.program
  jumps : m.jumps = m'.jumps
  pc : m.pc = m'.pc
  state : m.state = m'.state
  prepared : m.prepared = m'.prepared
  tape : m.tape = m'.tape
  input : m.input.Alike m'.input
  output : m.output.Alike m'.output
  count : m.count = m'.count

inductive Attempt.Alike : Attempt → Attempt → Prop
  | executed {m m' : Machine} (alike : m.Alike m') : Alike (.executed m) (.executed m')
  | starved {m m' : Machine} (alike : m.Alike m') : Alike (.starved m) (.starved m')
  | refused {m m' : Machine} (alike : m.Alike m') : Alike (.refused m) (.refused m')

inductive Stop.Alike : Stop → Stop → Prop
  | halted {m m' : Machine} (alike : m.Alike m') : Alike (.halted m) (.halted m')
  | starved {m m' : Machine} (alike : m.Alike m') : Alike (.starved m) (.starved m')
  | refused {m m' : Machine} (alike : m.Alike m') : Alike (.refused m) (.refused m')
  | bounded {m m' : Machine} (alike : m.Alike m') : Alike (.bounded m) (.bounded m')

structure Outcome.Alike (out out' : Outcome) : Prop where
  machine : out.machine.Alike out'.machine
  error : out.error = out'.error

namespace Buffer.Alike

variable {b b' : Buffer}

theorem length (alike : b.Alike b') : b.length = b'.length := by
  rw [← Buffer.length_unread, ← Buffer.length_unread, alike.unread]

private theorem full (alike : b.Alike b') (refused : Nat) : b.full refused = b'.full refused := by
  rw [Buffer.full, Buffer.full, alike.capacity, alike.length]

private theorem hasUnread (alike : b.Alike b') : b.hasUnread = b'.hasUnread := by
  rw [Bool.eq_iff_iff, b.hasUnread_iff, b'.hasUnread_iff, alike.unread]

theorem reset_of_capacity (same : b.capacity = b'.capacity) : b.reset.Alike b'.reset := by
  refine ⟨?_, ?_⟩
  · rw [Buffer.capacity_reset, Buffer.capacity_reset, same]
  · rw [Buffer.unread_reset, Buffer.unread_reset]

theorem refill_of_capacity (same : b.capacity = b'.capacity) (bytes : List UInt8) :
    (b.refill bytes).Alike (b'.refill bytes) := by
  refine ⟨?_, ?_⟩
  · rw [Buffer.capacity_refill, Buffer.capacity_refill, same]
  · rw [Buffer.unread_refill, Buffer.unread_refill, same]

private theorem next? (alike : b.Alike b') :
    b.next? = none ∧ b'.next? = none ∨
      ∃ c rest rest', b.next? = some (c, rest) ∧ b'.next? = some (c, rest') ∧ rest.Alike rest' := by
  cases unread : b.unread with
  | nil =>
      have unread' := alike.unread.symm.trans unread
      exact Or.inl ⟨Buffer.next?_of_nil unread, Buffer.next?_of_nil unread'⟩
  | cons c left =>
      have unread' := alike.unread.symm.trans unread
      obtain ⟨rest, next, after, capacity⟩ := Buffer.next?_of_cons unread
      obtain ⟨rest', next', after', capacity'⟩ := Buffer.next?_of_cons unread'
      refine Or.inr ⟨c, rest, rest', next, next', ?_, ?_⟩
      · rw [capacity, capacity', alike.capacity]
      · rw [after, after']

private theorem write (alike : b.Alike b') (bytes : List UInt8) :
    ∃ rest rest' accepted refusal, b.write bytes = (rest, accepted, refusal) ∧
      b'.write bytes = (rest', accepted, refusal) ∧ rest.Alike rest' := by
  obtain ⟨rest, written, unread, capacity⟩ := b.write_eq bytes
  obtain ⟨rest', written', unread', capacity'⟩ := b'.write_eq bytes
  have after : rest.Alike rest' := by
    refine ⟨?_, ?_⟩
    · rw [capacity, capacity', alike.capacity]
    · rw [unread, unread', alike.unread, alike.capacity, alike.length]
  rw [← alike.capacity, ← alike.length, ← after.full] at written'
  exact ⟨rest, rest', _, _, written, written', after⟩

private theorem appendAll (alike : b.Alike b') (bytes : List UInt8) :
    (∃ full, b.appendAll bytes = .error full ∧ b'.appendAll bytes = .error full) ∨
      ∃ rest rest', b.appendAll bytes = .ok rest ∧ b'.appendAll bytes = .ok rest' ∧
        rest.Alike rest' := by
  rcases Nat.lt_or_ge (b.capacity - b.length) bytes.length with short | room
  · have short' := short
    rw [alike.capacity, alike.length] at short'
    refine Or.inl ⟨_, Buffer.appendAll_of_short short, ?_⟩
    rw [Buffer.appendAll_of_short short', alike.full]
  · have room' := room
    rw [alike.capacity, alike.length] at room'
    obtain ⟨rest, appended, unread, capacity⟩ := Buffer.appendAll_of_room room
    obtain ⟨rest', appended', unread', capacity'⟩ := Buffer.appendAll_of_room room'
    refine Or.inr ⟨rest, rest', appended, appended', ?_, ?_⟩
    · rw [capacity, capacity', alike.capacity]
    · rw [unread, unread', alike.unread]

private theorem append (alike : b.Alike b') (c : UInt8) :
    (∃ full, b.append c = .error full ∧ b'.append c = .error full) ∨
      ∃ rest rest', b.append c = .ok rest ∧ b'.append c = .ok rest' ∧ rest.Alike rest' := by
  rcases Nat.lt_or_ge b.length b.capacity with room | full
  · have room' := room
    rw [alike.capacity, alike.length] at room'
    obtain ⟨rest, appended, unread, capacity⟩ := Buffer.append_of_room c room
    obtain ⟨rest', appended', unread', capacity'⟩ := Buffer.append_of_room c room'
    refine Or.inr ⟨rest, rest', appended, appended', ?_, ?_⟩
    · rw [capacity, capacity', alike.capacity]
    · rw [unread, unread', alike.unread]
  · have full' := full
    rw [alike.capacity, alike.length] at full'
    refine Or.inl ⟨_, Buffer.append_of_full c full, ?_⟩
    rw [Buffer.append_of_full c full', alike.full]

private theorem take (alike : b.Alike b') (count : Nat) :
    (b.take count).1 = (b'.take count).1 ∧ (b.take count).2.Alike (b'.take count).2 := by
  refine ⟨?_, ?_, ?_⟩
  · rw [Buffer.fst_take, Buffer.fst_take, alike.unread]
  · rw [Buffer.capacity_take, Buffer.capacity_take, alike.capacity]
  · rw [Buffer.unread_take, Buffer.unread_take, alike.unread]

private theorem drain (alike : b.Alike b') : b.drain.1 = b'.drain.1 ∧ b.drain.2.Alike b'.drain.2 := by
  refine ⟨alike.unread, alike.capacity, ?_⟩
  rw [Buffer.unread_drain, Buffer.unread_drain]

theorem perform (alike : b.Alike b') (op : Buffer.Operation) :
    (op.perform b).2 = (op.perform b').2 ∧ (op.perform b).1.Alike (op.perform b').1 := by
  cases op with
  | append c =>
      rcases alike.append c with ⟨full, refused, refused'⟩ | ⟨rest, rest', done, done', after⟩
      · simp only [Buffer.Operation.perform, refused, refused']
        exact ⟨trivial, alike⟩
      · simp only [Buffer.Operation.perform, done, done']
        exact ⟨trivial, after⟩
  | appendAll bytes =>
      rcases alike.appendAll bytes with ⟨full, refused, refused'⟩ | ⟨rest, rest', done, done', after⟩
      · simp only [Buffer.Operation.perform, refused, refused']
        exact ⟨trivial, alike⟩
      · simp only [Buffer.Operation.perform, done, done']
        exact ⟨trivial, after⟩
  | write bytes =>
      obtain ⟨rest, rest', accepted, refusal, written, written', after⟩ := alike.write bytes
      simp only [Buffer.Operation.perform, written, written']
      exact ⟨trivial, after⟩
  | next | readByte =>
      rcases alike.next? with ⟨none_left, none_left'⟩ | ⟨c, rest, rest', next, next', after⟩
      · simp only [Buffer.Operation.perform, Buffer.readByte?, none_left, none_left']
        exact ⟨trivial, alike⟩
      · simp only [Buffer.Operation.perform, Buffer.readByte?, next, next']
        exact ⟨trivial, after⟩
  | read count =>
      obtain ⟨taken, after⟩ := alike.take count
      by_cases some_left : (b.hasUnread || count == 0) = true
      · have some_left' := some_left
        rw [alike.hasUnread] at some_left'
        simp only [Buffer.Operation.perform, Buffer.read?, some_left, some_left', if_true, taken]
        exact ⟨trivial, after⟩
      · have some_left' := some_left
        rw [alike.hasUnread] at some_left'
        simp only [Buffer.Operation.perform, Buffer.read?, some_left, some_left', Bool.false_eq_true,
          if_false]
        exact ⟨trivial, alike⟩
  | drain =>
      obtain ⟨drained, after⟩ := alike.drain
      simp only [Buffer.Operation.perform, drained]
      exact ⟨trivial, after⟩
  | unread =>
      simp only [Buffer.Operation.perform, alike.unread]
      exact ⟨trivial, alike⟩
  | reset => exact ⟨rfl, reset_of_capacity alike.capacity⟩
  | capacity =>
      simp only [Buffer.Operation.perform, alike.capacity]
      exact ⟨trivial, alike⟩
  | length =>
      simp only [Buffer.Operation.perform, alike.length]
      exact ⟨trivial, alike⟩
  | hasUnread =>
      simp only [Buffer.Operation.perform, alike.hasUnread]
      exact ⟨trivial, alike⟩

end Buffer.Alike

namespace Machine.Alike

variable {m m' : Machine}

theorem refl (m : Machine) : m.Alike m :=
  ⟨rfl, rfl, rfl, rfl, rfl, rfl, ⟨rfl, rfl⟩, ⟨rfl, rfl⟩, rfl⟩

private theorem moved (alike : m.Alike m') {tape tape' : Tape} {state state' : RunState}
    {input input' output output' : Buffer} {pc pc' : Nat} (sameTape : tape = tape')
    (sameState : state = state') (inputs : input.Alike input') (outputs : output.Alike output')
    (samePc : pc = pc') :
    Attempt.Alike
      (.executed ({ m with tape := tape, state := state, input := input, output := output }.goto pc))
      (.executed
        ({ m' with tape := tape', state := state', input := input', output := output' }.goto pc')) :=
  .executed ⟨alike.program, alike.jumps, samePc, sameState, alike.prepared, sameTape, inputs, outputs,
    congrArg (· + 1) alike.count⟩

private theorem loopTarget (alike : m.Alike m') (offset : Nat) :
    m.loopTarget offset = m'.loopTarget offset := by
  rw [Machine.loopTarget, Machine.loopTarget, alike.tape, alike.jumps]

theorem execute (alike : m.Alike m') (i : Option Instruction) :
    (m.execute i).Alike (m'.execute i) := by
  have next : m.pc + 1 = m'.pc + 1 := by rw [alike.pc]
  cases i with
  | none => exact alike.moved alike.tape alike.state alike.input alike.output next
  | some i =>
      cases i with
      | increment =>
          have tape := congrArg Tape.increment alike.tape
          exact alike.moved tape alike.state alike.input alike.output next
      | decrement =>
          have tape := congrArg Tape.decrement alike.tape
          exact alike.moved tape alike.state alike.input alike.output next
      | right =>
          have tape := congrArg Tape.moveRight alike.tape
          exact alike.moved tape alike.state alike.input alike.output next
      | left =>
          have tape := congrArg Tape.moveLeft alike.tape
          exact alike.moved tape alike.state alike.input alike.output next
      | loopStart =>
          have there : m.loopTarget m.pc = m'.loopTarget m'.pc := by rw [alike.pc, alike.loopTarget]
          exact alike.moved alike.tape alike.state alike.input alike.output there
      | loopEnd =>
          have there : m.loopTarget (m.jumps.partner m.pc) = m'.loopTarget (m'.jumps.partner m'.pc) := by
            rw [alike.pc, alike.jumps, alike.loopTarget]
          exact alike.moved alike.tape alike.state alike.input alike.output there
      | input =>
          rcases alike.input.next? with
            ⟨none_left, none_left'⟩ | ⟨c, rest, rest', taken, taken', after⟩
          · simp only [Machine.execute, none_left, none_left']
            exact .starved { alike with state := rfl }
          · have tape := congrArg (Tape.write · c) alike.tape
            simp only [Machine.execute, taken, taken']
            exact alike.moved tape rfl after alike.output next
      | output =>
          by_cases room : m.output.length < m.output.capacity
          · have room' := room
            rw [alike.output.length, alike.output.capacity] at room'
            have pushed : (m.output.push m.tape.read room).Alike
                (m'.output.push m'.tape.read room') := by
              refine ⟨?_, ?_⟩
              · rw [Buffer.capacity_push, Buffer.capacity_push, alike.output.capacity]
              · rw [Buffer.unread_push, Buffer.unread_push, alike.output.unread, alike.tape]
            simp only [Machine.execute, dif_pos room, dif_pos room']
            exact alike.moved alike.tape alike.state alike.input pushed next
          · have room' := room
            rw [alike.output.length, alike.output.capacity] at room'
            simp only [Machine.execute, dif_neg room, dif_neg room']
            exact .refused alike

theorem exec (alike : m.Alike m') (bound : Bound) (fuel executed : Nat) :
    Option.Rel Stop.Alike (Machine.exec bound fuel executed m)
      (Machine.exec bound fuel executed m') := by
  induction fuel generalizing m m' executed with
  | zero => exact .none
  | succ fuel ih =>
      have size : m.program.size = m'.program.size := by rw [alike.program]
      by_cases inside : m.pc < m.program.size
      · have inside' : m'.pc < m'.program.size := by
          rw [← alike.pc, ← size]
          exact inside
        have fetched : m.program[m.pc] = m'.program[m'.pc] := by
          simp only [alike.program, alike.pc]
        by_cases reached : bound.reached m.pc executed = true
        · have reached' := reached
          rw [alike.pc] at reached'
          simp only [Machine.exec, dif_pos inside, dif_pos inside', if_pos reached, if_pos reached']
          exact .some (.bounded alike)
        · have reached' := reached
          rw [alike.pc] at reached'
          simp only [Machine.exec, dif_pos inside, dif_pos inside', if_neg reached, if_neg reached']
          have attempts := alike.execute (Instruction.ofByte? m.program[m.pc])
          rw [← fetched]
          generalize m.execute (Instruction.ofByte? m.program[m.pc]) = attempt at attempts ⊢
          generalize m'.execute (Instruction.ofByte? m.program[m.pc]) = attempt' at attempts ⊢
          cases attempts with
          | executed after => exact ih after (executed + 1)
          | starved after => exact .some (.starved after)
          | refused after => exact .some (.refused after)
      · have inside' : ¬ m'.pc < m'.program.size := by
          rw [← alike.pc, ← size]
          exact inside
        simp only [Machine.exec, dif_neg inside, dif_neg inside']
        exact .some (.halted { alike with state := rfl })

theorem runWithin (alike : m.Alike m') (bound : Bound) (fuel : Nat) :
    Option.Rel Outcome.Alike (m.runWithin bound fuel) (m'.runWithin bound fuel) := by
  unfold Machine.runWithin
  rw [alike.prepared, alike.state]
  split
  · exact .some ⟨alike, rfl⟩
  · split
    · exact .some ⟨alike, rfl⟩
    · have stops := alike.exec bound fuel 0
      generalize Machine.exec bound fuel 0 m = stop at stops ⊢
      generalize Machine.exec bound fuel 0 m' = stop' at stops ⊢
      cases stops with
      | none => exact .none
      | some same =>
          cases same with
          | halted after => exact .some ⟨after, rfl⟩
          | starved after => exact .some ⟨after, rfl⟩
          | bounded after => exact .some ⟨after, rfl⟩
          | refused after =>
              exact .some ⟨after, by rw [after.pc, after.output.full]⟩

private theorem resume (alike : m.Alike m') : m.resume.Alike m'.resume := by
  rw [Machine.resume_eq, Machine.resume_eq]
  have state : Machine.resumed m.state m.input.unread = Machine.resumed m'.state m'.input.unread := by
    rw [alike.state, alike.input.unread]
  exact { alike with state := state }

theorem writeInput (alike : m.Alike m') (bytes : List UInt8) :
    ∃ k k' accepted refusal, m.writeInput bytes = (k, accepted, refusal) ∧
      m'.writeInput bytes = (k', accepted, refusal) ∧ k.Alike k' := by
  obtain ⟨rest, rest', accepted, refusal, done, done', after⟩ := alike.input.write bytes
  have filled : Machine.Alike { m with input := rest } { m' with input := rest' } :=
    { alike with input := after }
  refine ⟨_, _, accepted, refusal, ?_, ?_, filled.resume⟩
  · rw [Machine.writeInput, done]
  · rw [Machine.writeInput, done']

theorem prepare (alike : m.Alike m') (program : List UInt8) :
    (∃ e, m.prepare program = .error e ∧ m'.prepare program = .error e) ∨
      ∃ k k', m.prepare program = .ok k ∧ m'.prepare program = .ok k' ∧ k.Alike k' := by
  unfold Machine.prepare
  cases link program with
  | error e => exact Or.inl ⟨e, rfl, rfl⟩
  | ok jumps =>
      have tape := congrArg Tape.reset alike.tape
      have input := Buffer.Alike.reset_of_capacity alike.input.capacity
      have output := Buffer.Alike.reset_of_capacity alike.output.capacity
      exact Or.inr ⟨_, _, rfl, rfl, rfl, rfl, rfl, rfl, rfl, tape, input, output, rfl⟩

private theorem restored (alike : m.Alike m') (img : Image) (tape : Tape) (state : RunState)
    (jumps : JumpTable) :
    (m.restored img tape state jumps).Alike (m'.restored img tape state jumps) := by
  have input := Buffer.Alike.refill_of_capacity alike.input.capacity (img.input.getD [])
  have output := Buffer.Alike.refill_of_capacity alike.output.capacity (img.output.getD [])
  exact ⟨rfl, rfl, rfl, rfl, rfl, rfl, input, output, rfl⟩

theorem restore (alike : m.Alike m') (img : Image) :
    (∃ e, m.restore img = .error e ∧ m'.restore img = .error e) ∨
      ∃ k k', m.restore img = .ok k ∧ m'.restore img = .ok k' ∧ k.Alike k' := by
  unfold Machine.restore
  simp only [← alike.tape, ← alike.input.capacity, ← alike.output.capacity]
  split
  · exact Or.inl ⟨_, rfl, rfl⟩
  · split
    · exact Or.inl ⟨_, rfl, rfl⟩
    · split
      · exact Or.inl ⟨_, rfl, rfl⟩
      · split
        · exact Or.inl ⟨_, rfl, rfl⟩
        · split
          · exact Or.inl ⟨_, rfl, rfl⟩
          · split
            · exact Or.inl ⟨_, rfl, rfl⟩
            · split
              · exact Or.inl ⟨_, rfl, rfl⟩
              · exact Or.inr ⟨_, _, rfl, rfl, alike.restored img _ _ _⟩

theorem image? (alike : m.Alike m') : m.image? = m'.image? := by
  simp only [Machine.image?, alike.prepared, alike.program, alike.pc, alike.state, alike.tape,
    alike.input.unread, alike.input.capacity, alike.output.unread, alike.output.capacity, alike.count]

def Replies {α : Type} (reply reply' : Machine × α) : Prop :=
  reply.1.Alike reply'.1 ∧ reply.2 = reply'.2

private theorem ran {out out' : Option Outcome} {f : Outcome → Answer}
    (same : Option.Rel Outcome.Alike out out')
    (answers : ∀ o o' : Outcome, o.Alike o' → f o = f o') :
    Option.Rel Replies (out.map fun o => (o.machine, f o)) (out'.map fun o => (o.machine, f o)) := by
  cases same with
  | none => exact .none
  | some after => exact .some ⟨after.machine, answers _ _ after⟩

theorem call (alike : m.Alike m') (c : Call) : Option.Rel Replies (c.perform m) (c.perform m') := by
  cases c with
  | appendInput bytes =>
      simp only [Call.perform, Machine.appendInput]
      rcases alike.input.appendAll bytes with
        ⟨full, refused, refused'⟩ | ⟨rest, rest', done, done', after⟩
      · simp only [refused, refused']
        exact .some ⟨alike, rfl⟩
      · have filled : Machine.Alike { m with input := rest } { m' with input := rest' } :=
          { alike with input := after }
        simp only [done, done']
        exact .some ⟨filled.resume, rfl⟩
  | write bytes =>
      obtain ⟨k, k', accepted, refusal, done, done', after⟩ := alike.writeInput bytes
      simp only [Call.perform, done, done']
      exact .some ⟨after, rfl⟩
  | run fuel =>
      refine ran (alike.runWithin .unbounded fuel) fun o o' same => ?_
      rw [Machine.isWaiting, Machine.isWaiting, same.machine.state, same.error]
  | runUpTo fuel offset =>
      refine ran (alike.runWithin (.past offset) fuel) fun o o' same => ?_
      rw [same.machine.pc, same.error]
  | step =>
      refine ran (alike.runWithin (.after 1) 2) fun o o' same => ?_
      rw [Machine.isWaiting, Machine.isWaiting, same.machine.state, same.error]
  | nextOutput =>
      simp only [Call.perform, Machine.nextOutput?]
      rcases alike.output.next? with ⟨none_left, none_left'⟩ | ⟨c, rest, rest', next, next', after⟩
      · simp only [none_left, none_left']
        exact .some ⟨alike, rfl⟩
      · simp only [next, next']
        exact .some ⟨{ alike with output := after }, rfl⟩
  | drainOutput =>
      obtain ⟨drained, after⟩ := alike.output.drain
      refine .some ⟨{ alike with output := after }, ?_⟩
      exact congrArg Answer.bytes drained

theorem request (alike : m.Alike m') (r : Request) :
    Option.Rel Replies (r.perform m) (r.perform m') := by
  cases r with
  | call c => exact alike.call c
  | prepare program =>
      simp only [Request.perform]
      rcases alike.prepare program with ⟨e, failed, failed'⟩ | ⟨k, k', done, done', after⟩
      · simp only [failed, failed']
        exact .some ⟨alike, rfl⟩
      · simp only [done, done']
        exact .some ⟨after, rfl⟩
  | restore img =>
      simp only [Request.perform]
      rcases alike.restore img with ⟨e, failed, failed'⟩ | ⟨k, k', done, done', after⟩
      · simp only [failed, failed']
        exact .some ⟨alike, rfl⟩
      · simp only [done, done']
        exact .some ⟨after, rfl⟩
  | image => exact .some ⟨alike, congrArg Answer.image alike.image?⟩
  | input op =>
      obtain ⟨answer, after⟩ := alike.input.perform op
      refine .some ⟨{ alike with input := after }, ?_⟩
      exact congrArg Answer.queue answer
  | output op =>
      obtain ⟨answer, after⟩ := alike.output.perform op
      refine .some ⟨{ alike with output := after }, ?_⟩
      exact congrArg Answer.queue answer
  | tape op =>
      have after := congrArg op.perform alike.tape
      exact .some ⟨{ alike with tape := after }, congrArg Answer.tape after⟩

/-- Machines that are alike answer every sequence of requests alike and stay alike. -/
theorem respond (alike : m.Alike m') (requests : List Request) :
    Option.Rel Replies (m.respond requests) (m'.respond requests) := by
  induction requests generalizing m m' with
  | nil => exact .some ⟨alike, rfl⟩
  | cons r rest ih =>
      have first := alike.request r
      simp only [Machine.respond]
      generalize r.perform m = reply at first ⊢
      generalize r.perform m' = reply' at first ⊢
      cases first with
      | none => exact .none
      | @some reply reply' same =>
          obtain ⟨k, answer⟩ := reply
          obtain ⟨k', answer'⟩ := reply'
          obtain ⟨after, here⟩ := same
          have later := ih after
          simp only
          generalize k.respond rest = others at later ⊢
          generalize k'.respond rest = others' at later ⊢
          cases later with
          | none => exact .none
          | some same =>
              obtain ⟨after, answers⟩ := same
              have all : answer :: _ = answer' :: _ := List.cons_eq_cons.mpr ⟨here, answers⟩
              exact .some ⟨after, all⟩

end Machine.Alike

end TapeMachine
