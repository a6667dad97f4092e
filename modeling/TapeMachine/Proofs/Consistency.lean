import TapeMachine.Proofs.Calls
import TapeMachine.Proofs.Matching
/-!
# Consistent machines

What holds of every reachable machine: its jump table is that of its program, its program counter
stays in range and agrees with its run state, and its queues can hold a byte. One executed
instruction keeps most of this and a run restores the rest when it stops, so that every request keeps
all of it.
-/

set_option autoImplicit false
set_option relaxedAutoImplicit false

namespace TapeMachine

private theorem Code.pc_le_of_next? {k : Code} {c c' : Config} (step : k.next? c = some c') :
    c'.pc ≤ k.program.length := by
  unfold next? at step
  cases fetched : k.program[c.pc]? with
  | none => simp [fetched] at step
  | some byte =>
      have inside : c.pc < k.program.length := (List.getElem?_eq_some_iff.mp fetched).1
      have start := partner_lt_of_link k.linked inside
      have close := partner_lt_of_link k.linked start
      have target (offset : Nat) (here : offset < k.program.length) :
          k.target c.tape offset ≤ k.program.length := by
        have other := partner_lt_of_link k.linked here
        unfold target
        split <;> omega
      rw [fetched] at step
      cases known : Instruction.ofByte? byte with
      | none =>
          simp only [known, effect?, Option.some.injEq] at step
          rw [← step]
          exact inside
      | some i =>
          simp only [known] at step
          cases i
          case input =>
            cases unread : c.input with
            | nil => simp [effect?, unread] at step
            | cons first rest =>
                simp only [effect?, unread, Option.some.injEq] at step
                rw [← step]
                exact inside
          case loopStart =>
            simp only [effect?, Option.some.injEq] at step
            rw [← step]
            exact target c.pc inside
          case loopEnd =>
            simp only [effect?, Option.some.injEq] at step
            rw [← step]
            exact target _ start
          all_goals
            simp only [effect?, Option.some.injEq] at step
            rw [← step]
            exact inside

namespace Machine

/-- What holds before every instruction. -/
structure Sound (m : Machine) : Prop where
  linked : link m.program.toList = .ok m.jumps
  pc_le : m.pc ≤ m.program.size
  waiting : m.state = .waiting → m.program[m.pc]? = some Instruction.input.toByte
  inputRoom : 0 < m.input.capacity
  outputRoom : 0 < m.output.capacity

/-- What holds before and after every request. -/
structure Consistent (m : Machine) : Prop extends Sound m where
  halted : m.state = .halted → m.pc = m.program.size
  ended : m.prepared = true → m.pc = m.program.size →
    m.state = .halted ∨ m.program.size = 0 ∧ m.state = .running

/-- A machine that waits has no input. Input appended to the queue of a machine behind its back would
break this, so not all requests keep it. -/
def Settled (m : Machine) : Prop := m.state = .waiting → m.input.unread = []

variable {m m' : Machine}

def Sound.code (sound : m.Sound) : Code := ⟨m.program.toList, m.jumps, sound.linked⟩

private theorem Sound.holds (sound : m.Sound) : m.Holds sound.code := ⟨rfl, rfl⟩

theorem Sound.holds_of_program (sound : m.Sound) {k : Code}
    (program : m.program.toList = k.program) : m.Holds k := by
  have linked := sound.linked
  rw [program, k.linked, Except.ok.injEq] at linked
  exact ⟨program, linked.symm⟩

theorem Sound.running_of_executes (sound : m.Sound) (live : m.state ≠ .halted)
    (run : m.Executes m') : m'.state = .running := by
  obtain ⟨byte, fetched, done⟩ := run
  have state := (execute_frame done).2.2
  by_cases input : Instruction.ofByte? byte = some .input
  · rw [state, if_pos input]
  · rw [state, if_neg input]
    cases now : m.state with
    | running => rfl
    | halted => exact absurd now live
    | waiting =>
        have wants := sound.waiting now
        rw [fetched, Option.some.injEq] at wants
        exact absurd (Instruction.ofByte?_eq_some_iff.mpr wants) input

theorem Sound.of_executes (sound : m.Sound) (live : m.state ≠ .halted) (run : m.Executes m') :
    m'.Sound := by
  have same := run.sameFrame
  have pc_le := Code.pc_le_of_next? (run.next? sound.holds)
  have running := sound.running_of_executes live run
  refine ⟨?_, ?_, ?_, ?_, ?_⟩
  · rw [same.program, same.jumps]
    exact sound.linked
  · rw [same.program, ← Array.length_toList]
    exact pc_le
  · intro waiting
    rw [running] at waiting
    cases waiting
  · rw [same.input]
    exact sound.inputRoom
  · rw [same.output]
    exact sound.outputRoom

theorem Sound.of_runs {n : Nat} (sound : m.Sound) (live : m.state ≠ .halted) (run : Runs n m m') :
    m'.Sound := by
  induction run with
  | refl m => exact sound
  | step first _ ih => exact ih (sound.of_executes live first) (first.live live)

private theorem Sound.running_of_runs {n : Nat} (sound : m.Sound) (live : m.state ≠ .halted)
    (run : Runs n m m') : m' = m ∨ m'.state = .running := by
  induction run with
  | refl m => exact Or.inl rfl
  | @step _ m m₁ m₂ first _ ih =>
      have running := sound.running_of_executes live first
      rcases ih (sound.of_executes live first) (first.live live) with rfl | later
      · exact Or.inr running
      · exact Or.inr later

theorem Consistent.of_stopsAs {bound : Bound} {executed : Nat} {stop : Stop} (sound : m.Sound)
    (live : m.state ≠ .halted) (stops : StopsAs bound executed m stop) :
    stop.outcome.machine.Consistent := by
  have before {byte : UInt8} (fetched : m.program[m.pc]? = some byte) : m.pc < m.program.size :=
    (Array.getElem?_eq_some_iff.mp fetched).1
  cases stops with
  | halted ended =>
      have at_end := Nat.le_antisymm sound.pc_le ended
      exact ⟨⟨sound.linked, sound.pc_le, fun h => (nomatch h), sound.inputRoom, sound.outputRoom⟩,
        fun _ => at_end, fun _ _ => Or.inl rfl⟩
  | bounded inside reached =>
      exact ⟨sound, fun h => absurd h live, fun _ h => absurd h (Nat.ne_of_lt inside)⟩
  | starved wants empty =>
      exact ⟨⟨sound.linked, sound.pc_le, fun _ => wants, sound.inputRoom, sound.outputRoom⟩,
        fun h => (nomatch h), fun _ h => absurd h (Nat.ne_of_lt (before wants))⟩
  | refused wants full =>
      exact ⟨sound, fun h => absurd h live, fun _ h => absurd h (Nat.ne_of_lt (before wants))⟩

theorem Consistent.runWithin {bound : Bound} {fuel : Nat} {out : Outcome} (consistent : m.Consistent)
    (ran : m.runWithin bound fuel = some out) : out.machine.Consistent := by
  rcases runWithin_cases ran with ⟨_, same⟩ | ⟨live, m', stop, run, stops, rfl⟩
  · rw [same]
    exact consistent
  · exact Consistent.of_stopsAs (consistent.toSound.of_runs live run) (run.live live) stops

theorem Consistent.with_stores (consistent : m.Consistent) (tape : Tape) {input output : Buffer}
    (inputRoom : 0 < input.capacity) (outputRoom : 0 < output.capacity) :
    Consistent { m with tape := tape, input := input, output := output } :=
  ⟨⟨consistent.linked, consistent.pc_le, consistent.waiting, inputRoom, outputRoom⟩,
    consistent.halted, consistent.ended⟩

private theorem Consistent.resume (consistent : m.Consistent) : m.resume.Consistent := by
  unfold Machine.resume
  split
  case isTrue waiting =>
    simp only [Bool.and_eq_true, decide_eq_true_eq] at waiting
    have wants := consistent.waiting waiting.1
    have inside := (Array.getElem?_eq_some_iff.mp wants).1
    exact ⟨⟨consistent.linked, consistent.pc_le, fun h => (nomatch h), consistent.inputRoom,
      consistent.outputRoom⟩, fun h => (nomatch h), fun _ h => absurd h (Nat.ne_of_lt inside)⟩
  case isFalse => exact consistent

theorem Consistent.loaded {program : List UInt8} {jumps : JumpTable} (consistent : m.Consistent)
    (linked : link program = .ok jumps) : (m.loaded program jumps).Consistent := by
  refine ⟨⟨?_, Nat.zero_le _, fun h => (nomatch h), consistent.inputRoom,
    consistent.outputRoom⟩, fun h => (nomatch h), fun _ h => Or.inr ⟨h.symm, rfl⟩⟩
  simpa [Machine.loaded, install] using linked

private theorem Consistent.restored {img : Image} {tape : Tape} {state : RunState} {jumps : JumpTable}
    (consistent : m.Consistent) (passes : m.Accepts img tape state jumps) :
    (m.restored img tape state jumps).Consistent := by
  obtain ⟨_, agrees⟩ := Image.runState_eq_ok_iff.mp passes.state
  have pc := passes.pc
  have pc_le := passes.pc_le
  refine ⟨⟨?_, ?_, ?_, ?_, ?_⟩, ?_, ?_⟩
  · simpa [Machine.restored, install] using passes.linked
  · simp only [Machine.restored, install, List.size_toArray]
    omega
  · intro (waiting : state = .waiting)
    rw [waiting] at agrees
    simpa [Machine.restored, install] using agrees.1
  · simpa [Machine.restored] using consistent.inputRoom
  · simpa [Machine.restored] using consistent.outputRoom
  · intro (halted : state = .halted)
    rw [halted, RunState.Agrees] at agrees
    simpa [Machine.restored, install] using agrees
  · intro _ (ended : img.pc.toInt.toNat = (img.program.getD []).toArray.size)
    rw [List.size_toArray] at ended
    cases state with
    | running => exact absurd ended agrees
    | waiting =>
        have inside := (List.getElem?_eq_some_iff.mp agrees.1).1
        omega
    | halted => exact Or.inl rfl

@[simp]
theorem size_tape_ofSizes (s : Sizes) : (ofSizes s).tape.size = s.cells := by
  simp [ofSizes, Tape.size, Tape.blank]

@[simp]
theorem capacity_input_ofSizes (s : Sizes) : (ofSizes s).input.capacity = s.input :=
  Buffer.capacity_empty s.input

@[simp]
theorem capacity_output_ofSizes (s : Sizes) : (ofSizes s).output.capacity = s.output :=
  Buffer.capacity_empty s.output

theorem consistent_ofSizes (s : Sizes) : (ofSizes s).Consistent := by
  refine ⟨⟨by rfl, Nat.zero_le _, fun h => (nomatch h), ?_, ?_⟩, fun h => (nomatch h),
    fun h => (nomatch h)⟩
  · simpa using s.input_pos
  · simpa using s.output_pos

end Machine

namespace Machine

variable {m m' : Machine}

theorem Consistent.called {accepted taken : List UInt8} {executed : Nat} (consistent : m.Consistent)
    (does : Call.Does m accepted taken executed m') : m'.Consistent := by
  cases does with
  | nothing => exact consistent
  | @accepts queue bytes unread capacity =>
      have inputRoom : 0 < queue.capacity := by
        rw [capacity]
        exact consistent.inputRoom
      have filled := (consistent.with_stores m.tape inputRoom consistent.outputRoom).resume
      rw [resume_eq] at filled
      exact filled
  | @gives queue bytes unread capacity =>
      have outputRoom : 0 < queue.capacity := by
        rw [capacity]
        exact consistent.outputRoom
      exact consistent.with_stores m.tape consistent.inputRoom outputRoom
  | runs ran => exact consistent.runWithin ran

theorem Consistent.request {r : Request} {answer : Answer} (consistent : m.Consistent)
    (done : r.perform m = some (m', answer)) : m'.Consistent := by
  cases r.does done with
  | nothing => exact consistent
  | called does => exact consistent.called does
  | loaded linked => exact consistent.loaded linked
  | restored passes => exact consistent.restored passes
  | @touched _ tape input output outside cells inputSize outputSize =>
      have inputRoom : 0 < input.capacity := by
        rw [inputSize]
        exact consistent.inputRoom
      have outputRoom : 0 < output.capacity := by
        rw [outputSize]
        exact consistent.outputRoom
      exact consistent.with_stores tape inputRoom outputRoom

private theorem Settled.runWithin {bound : Bound} {fuel : Nat} {out : Outcome} (settled : m.Settled)
    (consistent : m.Consistent) (ran : m.runWithin bound fuel = some out) : out.machine.Settled := by
  rcases runWithin_cases ran with ⟨_, same⟩ | ⟨live, m', stop, run, stops, rfl⟩
  · rw [same]
    exact settled
  · have still : m'.Settled := by
      rcases consistent.toSound.running_of_runs live run with rfl | running
      · exact settled
      · intro waiting
        rw [running] at waiting
        cases waiting
    cases stops with
    | halted ended => exact fun h => (nomatch h)
    | bounded inside reached => exact still
    | starved wants empty => exact fun _ => empty
    | refused wants full => exact still

theorem Settled.called {accepted taken : List UInt8} {executed : Nat} (settled : m.Settled)
    (consistent : m.Consistent) (does : Call.Does m accepted taken executed m') : m'.Settled := by
  cases does with
  | nothing => exact settled
  | @accepts queue bytes unread capacity =>
      intro (waiting : resumed m.state queue.unread = .waiting)
      by_cases some_left : queue.unread = []
      · exact some_left
      · simp only [resumed, some_left, ne_eq, not_false_eq_true, and_true] at waiting
        split at waiting
        · cases waiting
        · contradiction
  | gives unread capacity => exact settled
  | runs ran => exact settled.runWithin consistent ran

theorem Settled.request {r : Request} {answer : Answer} (settled : m.Settled)
    (consistent : m.Consistent) (own : r.Own) (done : r.perform m = some (m', answer)) :
    m'.Settled := by
  cases r.does done with
  | nothing => exact settled
  | called does => exact settled.called consistent does
  | loaded linked => exact fun h => (nomatch h)
  | @restored img tape state jumps passes =>
      intro (waiting : state = .waiting)
      obtain ⟨_, agrees⟩ := Image.runState_eq_ok_iff.mp passes.state
      rw [waiting] at agrees
      have empty : (m.input.refill (img.input.getD [])).unread = [] := by
        rw [Buffer.unread_refill, agrees.2, List.take_nil]
      exact empty
  | touched outside => exact absurd own outside

theorem Consistent.leads {kind : Request → Prop} (consistent : m.Consistent)
    (leads : m.Leads kind m') : m'.Consistent := by
  induction leads with
  | refl => exact consistent
  | request _ _ done ih => exact ih.request done

theorem Settled.fair {r : Request} {answer : Answer} (settled : m.Settled)
    (consistent : m.Consistent) (fair : r.Fair) (done : r.perform m = some (m', answer)) :
    m'.Settled := by
  cases r with
  | input op =>
      cases done
      exact fun waiting => Buffer.unread_perform_of_nil (settled waiting) fair
  | output op | tape op =>
      cases done
      exact settled
  | call | prepare | restore | image => exact settled.request consistent (by exact trivial) done

theorem Settled.leads_fair (settled : m.Settled) (consistent : m.Consistent)
    (leads : m.Leads Request.Fair m') : m'.Settled := by
  induction leads with
  | refl => exact settled
  | request before fair done ih => exact ih.fair (consistent.leads before) fair done

theorem Settled.leads {kind : Request → Prop} (settled : m.Settled) (consistent : m.Consistent)
    (own : ∀ r, kind r → r.Own) (leads : m.Leads kind m') : m'.Settled :=
  settled.leads_fair consistent (leads.mono fun r allowed => (own r allowed).fair)

theorem Consistent.run_of_waiting (consistent : m.Consistent) (settled : m.Settled)
    (prepared : m.prepared = true) (waiting : m.state = .waiting) (fuel : Nat) :
    m.run (fuel + 1) = some ⟨m, none⟩ := by
  have live : m.state ≠ .halted := by
    rw [waiting]
    exact RunState.noConfusion
  have wants := consistent.waiting waiting
  rw [run, runWithin_of_live _ _ prepared live]
  rcases exec_cases .unbounded 0 m with ⟨stop, stops, now⟩ | ⟨m₁, first, _⟩
  · rw [(now fuel).1]
    cases stops with
    | halted ended =>
        have inside := (Array.getElem?_eq_some_iff.mp wants).1
        omega
    | bounded inside reached => cases reached
    | starved wants empty =>
        rw [← waiting]
        rfl
    | refused wants' full =>
        rw [wants] at wants'
        cases wants'
  · obtain ⟨byte, fetched, done⟩ := first
    rw [wants] at fetched
    cases fetched
    simp [execute, Buffer.next?_of_nil (settled waiting)] at done

theorem create_eq_ok_iff {sizes : List (Part × Int)} :
    create sizes = .ok m ↔ ∃ s, Sizes.standard.setAll sizes = .ok s ∧ m = ofSizes s := by
  unfold create
  cases Sizes.standard.setAll sizes with
  | error e => simp
  | ok s => simp [eq_comm]

theorem consistent_create {sizes : List (Part × Int)} (created : create sizes = .ok m) :
    m.Consistent := by
  obtain ⟨s, _, rfl⟩ := create_eq_ok_iff.mp created
  exact consistent_ofSizes s

theorem settled_create {sizes : List (Part × Int)} (created : create sizes = .ok m) : m.Settled := by
  obtain ⟨s, _, rfl⟩ := create_eq_ok_iff.mp created
  exact fun h => (nomatch h)

theorem Reachable.consistent (reachable : m.Reachable) : m.Consistent := by
  obtain ⟨sizes, start, created, leads⟩ := reachable
  exact (consistent_create created).leads leads

end Machine

end TapeMachine
