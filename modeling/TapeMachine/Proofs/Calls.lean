import TapeMachine.Proofs.Execution
import TapeMachine.Proofs.Requests
import TapeMachine.Proofs.Restoring
/-!
# What requests do

The calls that run nothing change a queue and perhaps the run state, and nothing else. Loading and
restoring change everything but the sizes. All that a request can do to a machine is one of few things,
so what every request keeps is shown by one case for each of these.
-/

set_option autoImplicit false
set_option relaxedAutoImplicit false

namespace TapeMachine

namespace Machine

def loaded (m : Machine) (program : List UInt8) (jumps : JumpTable) : Machine :=
  { m.install program jumps with
    tape := m.tape.reset
    input := m.input.reset
    output := m.output.reset }

theorem prepare_eq_ok_iff {m m' : Machine} {program : List UInt8} :
    m.prepare program = .ok m' ↔
      ∃ jumps, link program = .ok jumps ∧ m' = m.loaded program jumps := by
  unfold prepare loaded
  cases linked : link program with
  | error e => simp
  | ok jumps => simp [eq_comm]

def resumed (state : RunState) (unread : List UInt8) : RunState :=
  if state = .waiting ∧ unread ≠ [] then .running else state

theorem resume_eq (m : Machine) :
    m.resume = { m with state := resumed m.state m.input.unread } := by
  unfold resume resumed
  by_cases waiting : m.state = .waiting
  · by_cases unread : m.input.unread = []
    · have none_left : m.input.hasUnread = false := by
        rw [← Bool.not_eq_true, m.input.hasUnread_iff]
        exact fun h => h unread
      simp [unread, none_left]
    · have some_left := m.input.hasUnread_iff.mpr unread
      simp [waiting, unread, some_left]
  · simp [waiting]

theorem resumed_ne_halted {state : RunState} (live : state ≠ .halted) (unread : List UInt8) :
    resumed state unread ≠ .halted := by
  unfold resumed
  split
  · exact RunState.noConfusion
  · exact live

theorem writeInput_eq (m : Machine) (bytes : List UInt8) :
    ∃ queue, m.writeInput bytes =
        ({ m with input := queue, state := resumed m.state queue.unread },
          min bytes.length (m.input.capacity - m.input.length),
          if m.input.capacity - m.input.length < bytes.length then
            some (queue.full (bytes.length - (m.input.capacity - m.input.length))) else none) ∧
      queue.unread = m.input.unread ++ bytes.take (m.input.capacity - m.input.length) ∧
      queue.capacity = m.input.capacity := by
  obtain ⟨queue, written, unread, capacity⟩ := m.input.write_eq bytes
  refine ⟨queue, ?_, unread, capacity⟩
  simp only [writeInput, written, resume_eq]

theorem appendInput_of_room {m : Machine} {bytes : List UInt8}
    (room : bytes.length ≤ m.input.capacity - m.input.length) :
    ∃ queue, m.appendInput bytes =
        .ok { m with input := queue, state := resumed m.state queue.unread } ∧
      queue.unread = m.input.unread ++ bytes ∧ queue.capacity = m.input.capacity := by
  obtain ⟨queue, appended, unread, capacity⟩ := Buffer.appendAll_of_room room
  refine ⟨queue, ?_, unread, capacity⟩
  simp only [appendInput, appended, resume_eq]

private theorem appendInput_of_short {m : Machine} {bytes : List UInt8}
    (short : m.input.capacity - m.input.length < bytes.length) :
    m.appendInput bytes = .error (m.input.full bytes.length) := by
  rw [appendInput, Buffer.appendAll_of_short short]

private theorem nextOutput?_of_nil {m : Machine} (empty : m.output.unread = []) :
    m.nextOutput? = none := by
  rw [nextOutput?, Buffer.next?_of_nil empty]

private theorem nextOutput?_of_cons {m : Machine} {c : UInt8} {rest : List UInt8}
    (first : m.output.unread = c :: rest) :
    ∃ queue, m.nextOutput? = some (c, { m with output := queue }) ∧ queue.unread = rest ∧
      queue.capacity = m.output.capacity := by
  obtain ⟨queue, next, unread, capacity⟩ := Buffer.next?_of_cons first
  exact ⟨queue, by rw [nextOutput?, next], unread, capacity⟩

private theorem drainOutput_eq (m : Machine) :
    ∃ queue, m.drainOutput = (m.output.unread, { m with output := queue }) ∧ queue.unread = [] ∧
      queue.capacity = m.output.capacity :=
  ⟨m.output.drain.2, rfl, m.output.unread_drain, m.output.capacity_drain⟩

end Machine

def Call.accepts : Call → Answer → List UInt8
  | .appendInput bytes, .done => bytes
  | .write bytes, .wrote count _ => bytes.take count
  | _, _ => []

def Answer.taken : Answer → List UInt8
  | .byte (some c) => [c]
  | .bytes content => content
  | _ => []

def Call.executes : Call → Machine → Nat
  | .run fuel, m => m.executed .unbounded fuel
  | .runUpTo fuel offset, m => m.executed (.past offset) fuel
  | .step, m => m.executed (.after 1) 2
  | _, _ => 0

/-- What a call can do: nothing, accept input, give output, or run the machine. -/
inductive Call.Does (m : Machine) : (accepted taken : List UInt8) → (executed : Nat) → Machine → Prop
  | nothing : Does m [] [] 0 m
  | accepts {queue : Buffer} {bytes : List UInt8} (unread : queue.unread = m.input.unread ++ bytes)
      (capacity : queue.capacity = m.input.capacity) :
      Does m bytes [] 0 { m with input := queue, state := Machine.resumed m.state queue.unread }
  | gives {queue : Buffer} {bytes : List UInt8} (unread : bytes ++ queue.unread = m.output.unread)
      (capacity : queue.capacity = m.output.capacity) : Does m [] bytes 0 { m with output := queue }
  | runs {bound : Bound} {fuel : Nat} {out : Outcome} (ran : m.runWithin bound fuel = some out) :
      Does m [] [] (m.executed bound fuel) out.machine

theorem Call.does {m m' : Machine} {answer : Answer} (c : Call)
    (done : c.perform m = some (m', answer)) :
    Call.Does m (c.accepts answer) answer.taken (c.executes m) m' := by
  cases c with
  | appendInput bytes =>
      rcases Nat.lt_or_ge (m.input.capacity - m.input.length) bytes.length with short | room
      · simp only [Call.perform, Machine.appendInput_of_short short] at done
        cases done
        exact .nothing
      · obtain ⟨queue, appended, unread, capacity⟩ := Machine.appendInput_of_room room
        simp only [Call.perform, appended] at done
        cases done
        exact .accepts unread capacity
  | write bytes =>
      obtain ⟨queue, written, unread, capacity⟩ := m.writeInput_eq bytes
      simp only [Call.perform, written] at done
      cases done
      rw [List.take_eq_take_min, Nat.min_comm] at unread
      exact .accepts unread capacity
  | run fuel =>
      obtain ⟨out, ran, same⟩ := Option.map_eq_some_iff.mp done
      cases same
      exact .runs ran
  | runUpTo fuel offset =>
      obtain ⟨out, ran, same⟩ := Option.map_eq_some_iff.mp done
      cases same
      exact .runs ran
  | step =>
      obtain ⟨out, ran, same⟩ := Option.map_eq_some_iff.mp done
      cases same
      exact .runs ran
  | nextOutput =>
      cases unread : m.output.unread with
      | nil =>
          simp only [Call.perform, Machine.nextOutput?_of_nil unread] at done
          cases done
          exact .nothing
      | cons c rest =>
          obtain ⟨queue, next, left, capacity⟩ := Machine.nextOutput?_of_cons unread
          simp only [Call.perform, next] at done
          cases done
          have taken : [c] ++ queue.unread = m.output.unread := by
            rw [left, unread]
            rfl
          exact .gives taken capacity
  | drainOutput =>
      obtain ⟨queue, drained, left, capacity⟩ := m.drainOutput_eq
      simp only [Call.perform, drained] at done
      cases done
      have taken : m.output.unread ++ queue.unread = m.output.unread := by
        rw [left, List.append_nil]
      exact .gives taken capacity

theorem Call.Does.sameFrame {m m' : Machine} {accepted taken : List UInt8} {executed : Nat}
    (does : Call.Does m accepted taken executed m') : m.SameFrame m' := by
  cases does with
  | nothing => exact .refl m
  | accepts unread capacity => exact ⟨rfl, rfl, rfl, rfl, capacity, rfl⟩
  | gives unread capacity => exact ⟨rfl, rfl, rfl, rfl, rfl, capacity⟩
  | runs ran =>
      obtain ⟨m₁, runs, view⟩ := Machine.runWithin_eq_some ran
      have same := runs.sameFrame
      rw [view]
      exact ⟨same.program, same.jumps, same.prepared, same.cells, same.input, same.output⟩

theorem Call.Does.count {m m' : Machine} {accepted taken : List UInt8} {executed : Nat}
    (does : Call.Does m accepted taken executed m') : m'.count = m.count + Int64.ofNat executed := by
  cases does with
  | nothing | accepts | gives => simp
  | runs ran =>
      obtain ⟨m₁, runs, view⟩ := Machine.runWithin_eq_some ran
      rw [view]
      exact runs.count

private theorem Buffer.capacity_perform (op : Buffer.Operation) (b : Buffer) :
    (op.perform b).1.capacity = b.capacity := by
  cases op with
  | append c =>
      by_cases room : b.length < b.capacity
      · obtain ⟨b', appended, _, capacity⟩ := append_of_room c room
        simpa [Operation.perform, appended] using capacity
      · simp [Operation.perform, append_of_full c (Nat.le_of_not_lt room)]
  | appendAll bytes =>
      by_cases room : bytes.length ≤ b.capacity - b.length
      · obtain ⟨b', appended, _, capacity⟩ := appendAll_of_room room
        simpa [Operation.perform, appended] using capacity
      · simp [Operation.perform, appendAll_of_short (Nat.lt_of_not_le room)]
  | write bytes =>
      obtain ⟨b', written, _, capacity⟩ := b.write_eq bytes
      simpa [Operation.perform, written] using capacity
  | next | readByte =>
      cases unread : b.unread with
      | nil => simp [Operation.perform, readByte?, next?_of_nil unread]
      | cons c rest =>
          obtain ⟨b', next, _, capacity⟩ := next?_of_cons unread
          simpa [Operation.perform, readByte?, next] using capacity
  | read count =>
      by_cases some_left : (b.hasUnread || count == 0) = true
      · simp [Operation.perform, read?, some_left, take, Buffer.capacity]
      · simp [Operation.perform, read?, some_left]
  | drain | unread | reset | capacity | length | hasUnread => rfl

theorem Buffer.unread_perform_of_nil {b : Buffer} {op : Buffer.Operation} (empty : b.unread = [])
    (takes : ¬ op.Adds) : (op.perform b).1.unread = [] := by
  cases op with
  | append c | appendAll bytes | write bytes => exact absurd trivial takes
  | next | readByte => simpa [Operation.perform, readByte?, next?_of_nil empty] using empty
  | read count =>
      by_cases some_left : (b.hasUnread || count == 0) = true
      · simp [Operation.perform, read?, some_left, empty]
      · simpa [Operation.perform, read?, some_left] using empty
  | drain => exact b.unread_drain
  | reset => exact b.unread_reset
  | unread | capacity | length | hasUnread => exact empty

private theorem Tape.size_perform (op : Tape.Operation) (t : Tape) :
    (op.perform t).size = t.size := by
  cases op with
  | read | moveRight | moveLeft => rfl
  | write | increment | decrement => exact size_write t _
  | reset => exact size_reset t

/-- What a request can do: nothing, what a call does, load, restore, or change the queues and the tape
behind the back of the machine. -/
inductive Request.Does (m : Machine) : Request → Machine → Prop
  | nothing {r : Request} : Does m r m
  | called {c : Call} {accepted taken : List UInt8} {executed : Nat} {m' : Machine}
      (does : Call.Does m accepted taken executed m') : Does m (.call c) m'
  | loaded {program : List UInt8} {jumps : JumpTable} (linked : link program = .ok jumps) :
      Does m (.prepare program) (m.loaded program jumps)
  | restored {img : Image} {tape : Tape} {state : RunState} {jumps : JumpTable}
      (passes : m.Accepts img tape state jumps) :
      Does m (.restore img) (m.restored img tape state jumps)
  | touched {r : Request} {tape : Tape} {input output : Buffer} (outside : ¬ r.Own)
      (cells : tape.size = m.tape.size) (inputSize : input.capacity = m.input.capacity)
      (outputSize : output.capacity = m.output.capacity) :
      Does m r { m with tape := tape, input := input, output := output }

theorem Request.Does.sameSizes {m m' : Machine} {r : Request} (does : Request.Does m r m') :
    m.SameSizes m' := by
  cases does with
  | nothing => exact .refl m
  | called does => exact does.sameFrame.sameSizes
  | loaded linked => exact ⟨Tape.size_reset _, rfl, rfl⟩
  | restored passes =>
      exact ⟨passes.size_tape, Buffer.capacity_refill _ _, Buffer.capacity_refill _ _⟩
  | touched outside cells inputSize outputSize => exact ⟨cells, inputSize, outputSize⟩

theorem Request.does {m m' : Machine} {answer : Answer} (r : Request)
    (done : r.perform m = some (m', answer)) : Request.Does m r m' := by
  cases r with
  | call c => exact .called (c.does done)
  | prepare program =>
      simp only [perform] at done
      split at done
      case h_1 m₁ prepared =>
        cases done
        obtain ⟨jumps, linked, rfl⟩ := Machine.prepare_eq_ok_iff.mp prepared
        exact .loaded linked
      case h_2 =>
        cases done
        exact .nothing
  | restore img =>
      simp only [perform] at done
      split at done
      case h_1 m₁ accepted =>
        cases done
        obtain ⟨tape, state, jumps, passes, rfl⟩ := Machine.restore_eq_ok_iff.mp accepted
        exact .restored passes
      case h_2 =>
        cases done
        exact .nothing
  | image =>
      cases done
      exact .nothing
  | input op =>
      have size := Buffer.capacity_perform op m.input
      cases done
      exact .touched id rfl size rfl
  | output op =>
      have size := Buffer.capacity_perform op m.output
      cases done
      exact .touched id rfl rfl size
  | tape op =>
      have size := Tape.size_perform op m.tape
      cases done
      exact .touched id size rfl rfl

theorem Machine.Leads.sameSizes {kind : Request → Prop} {m m' : Machine} (leads : m.Leads kind m') :
    m.SameSizes m' := by
  induction leads with
  | refl => exact .refl m
  | request _ _ done ih => exact ih.trans (Request.does _ done).sameSizes

end TapeMachine
