import TapeMachine.Machine.Run
import TapeMachine.Proofs.Queue
import TapeMachine.Proofs.Ideal
/-!
# What a run does

A run is a sequence of executed instructions after which the machine stops in one of four ways. One
executed instruction is one step of the ideal machine on the bytes of the two queues, so a run of `n`
instructions is `n` steps of the ideal machine.
-/

set_option autoImplicit false
set_option relaxedAutoImplicit false

namespace TapeMachine

namespace Machine

/-- What the ideal machine sees of a machine: the queues are the lists of their unread bytes. -/
def config (m : Machine) : Config := ⟨m.pc, m.tape, m.input.unread, m.output.unread⟩

structure Holds (m : Machine) (k : Code) : Prop where
  program : m.program.toList = k.program
  jumps : m.jumps = k.jumps

/-- What running never changes. -/
structure SameFrame (m m' : Machine) : Prop where
  program : m'.program = m.program
  jumps : m'.jumps = m.jumps
  prepared : m'.prepared = m.prepared
  cells : m'.tape.size = m.tape.size
  input : m'.input.capacity = m.input.capacity
  output : m'.output.capacity = m.output.capacity

/-- What is fixed when a machine is made. -/
structure SameSizes (m m' : Machine) : Prop where
  cells : m'.tape.size = m.tape.size
  input : m'.input.capacity = m.input.capacity
  output : m'.output.capacity = m.output.capacity

def Executes (m m' : Machine) : Prop :=
  ∃ byte, m.program[m.pc]? = some byte ∧ m.execute (Instruction.ofByte? byte) = .executed m'

/-- A number of executed instructions. -/
inductive Runs : Nat → Machine → Machine → Prop
  | refl (m : Machine) : Runs 0 m m
  | step {n : Nat} {m m₁ m₂ : Machine} (first : m.Executes m₁) (rest : Runs n m₁ m₂) :
      Runs (n + 1) m m₂

/-- Why a machine stops before its next instruction, with the answer of the run. -/
inductive StopsAs (bound : Bound) (executed : Nat) (m : Machine) : Stop → Prop
  | halted (ended : m.program.size ≤ m.pc) :
      StopsAs bound executed m (.halted { m with state := .halted })
  | bounded (inside : m.pc < m.program.size) (reached : bound.reached m.pc executed = true) :
      StopsAs bound executed m (.bounded m)
  | starved (wants : m.program[m.pc]? = some Instruction.input.toByte)
      (empty : m.input.unread = []) :
      StopsAs bound executed m (.starved { m with state := .waiting })
  | refused (wants : m.program[m.pc]? = some Instruction.output.toByte)
      (full : m.output.capacity ≤ m.output.length) :
      StopsAs bound executed m (.refused m)

def instructions (bound : Bound) : (fuel executed : Nat) → Machine → Nat
  | 0, _, _ => 0
  | fuel + 1, executed, m =>
    if h : m.pc < m.program.size then
      if bound.reached m.pc executed then 0
      else
        match m.execute (Instruction.ofByte? m.program[m.pc]) with
        | .executed m => instructions bound fuel (executed + 1) m + 1
        | _ => 0
    else 0

variable {m m' : Machine} {i : Option Instruction}

theorem SameFrame.refl (m : Machine) : SameFrame m m := ⟨rfl, rfl, rfl, rfl, rfl, rfl⟩

theorem SameFrame.trans {m₁ m₂ m₃ : Machine} (first : SameFrame m₁ m₂) (second : SameFrame m₂ m₃) :
    SameFrame m₁ m₃ :=
  ⟨second.program.trans first.program, second.jumps.trans first.jumps,
    second.prepared.trans first.prepared, second.cells.trans first.cells,
    second.input.trans first.input, second.output.trans first.output⟩

theorem SameSizes.refl (m : Machine) : SameSizes m m := ⟨rfl, rfl, rfl⟩

theorem SameSizes.trans {m₁ m₂ m₃ : Machine} (first : SameSizes m₁ m₂) (second : SameSizes m₂ m₃) :
    SameSizes m₁ m₃ :=
  ⟨second.cells.trans first.cells, second.input.trans first.input, second.output.trans first.output⟩

theorem SameFrame.sameSizes (same : SameFrame m m') : SameSizes m m' :=
  ⟨same.cells, same.input, same.output⟩

theorem Holds.of_sameFrame {k : Code} (holds : m.Holds k) (same : SameFrame m m') : m'.Holds k :=
  ⟨by rw [same.program, holds.program], by rw [same.jumps, holds.jumps]⟩

theorem Holds.fetch {k : Code} (holds : m.Holds k) : k.program[m.pc]? = m.program[m.pc]? := by
  rw [← holds.program, Array.getElem?_toList]

theorem Holds.halted_iff {k : Code} (holds : m.Holds k) :
    k.Halted m.config ↔ m.program.size ≤ m.pc := by
  rw [Code.Halted, ← holds.program, Array.length_toList]
  rfl

private theorem execute_effect {k : Code} (jumps : m.jumps = k.jumps)
    (done : m.execute i = .executed m') :
    k.effect? m.config i = some m'.config := by
  have target (offset : Nat) : m.loopTarget offset = k.target m.tape offset := by
    rw [loopTarget, Code.target, jumps]
  cases i with
  | none =>
      simp only [execute, Attempt.executed.injEq] at done
      subst done
      rfl
  | some i =>
      cases i
      case input =>
        cases unread : m.input.unread with
        | nil => simp [execute, Buffer.next?_of_nil unread] at done
        | cons first rest =>
            obtain ⟨queue, next, left, _⟩ := Buffer.next?_of_cons unread
            simp only [execute, next, Attempt.executed.injEq] at done
            subst done
            simp [Code.effect?, config, unread, left, goto]
      case output =>
        by_cases room : m.output.length < m.output.capacity
        · simp only [execute, dif_pos room, Attempt.executed.injEq] at done
          subst done
          simp [Code.effect?, config, goto]
        · simp [execute, room] at done
      all_goals
        simp only [execute, Attempt.executed.injEq] at done
        subst done
        simp [Code.effect?, config, goto, target, jumps]

theorem execute_frame (done : m.execute i = .executed m') :
    SameFrame m m' ∧ m'.count = m.count + 1 ∧
      m'.state = if i = some .input then .running else m.state := by
  cases i with
  | none =>
      simp only [execute, Attempt.executed.injEq] at done
      subst done
      exact ⟨⟨rfl, rfl, rfl, rfl, rfl, rfl⟩, rfl, rfl⟩
  | some i =>
      cases i
      case input =>
        cases unread : m.input.unread with
        | nil => simp [execute, Buffer.next?_of_nil unread] at done
        | cons first rest =>
            obtain ⟨queue, next, _, capacity⟩ := Buffer.next?_of_cons unread
            simp only [execute, next, Attempt.executed.injEq] at done
            subst done
            exact ⟨⟨rfl, rfl, rfl, Tape.size_write _ _, capacity, rfl⟩, rfl, rfl⟩
      case output =>
        by_cases room : m.output.length < m.output.capacity
        · simp only [execute, dif_pos room, Attempt.executed.injEq] at done
          subst done
          exact ⟨⟨rfl, rfl, rfl, rfl, rfl, Buffer.capacity_push _ _ room⟩, rfl, rfl⟩
        · simp [execute, room] at done
      case increment | decrement =>
        simp only [execute, Attempt.executed.injEq] at done
        subst done
        exact ⟨⟨rfl, rfl, rfl, Tape.size_write _ _, rfl, rfl⟩, rfl, rfl⟩
      all_goals
        simp only [execute, Attempt.executed.injEq] at done
        subst done
        exact ⟨⟨rfl, rfl, rfl, rfl, rfl, rfl⟩, rfl, rfl⟩

private theorem execute_starved (done : m.execute i = .starved m') :
    i = some .input ∧ m.input.unread = [] ∧ m' = { m with state := .waiting } := by
  cases i with
  | none => simp [execute] at done
  | some i =>
      cases i
      case input =>
        cases unread : m.input.unread with
        | nil =>
            simp only [execute, Buffer.next?_of_nil unread, Attempt.starved.injEq] at done
            exact ⟨rfl, rfl, done.symm⟩
        | cons first rest =>
            obtain ⟨queue, next, _, _⟩ := Buffer.next?_of_cons unread
            simp [execute, next] at done
      case output =>
        by_cases room : m.output.length < m.output.capacity
        all_goals simp [execute, room] at done
      all_goals simp [execute] at done

private theorem execute_refused (done : m.execute i = .refused m') :
    i = some .output ∧ m.output.capacity ≤ m.output.length ∧ m' = m := by
  cases i with
  | none => simp [execute] at done
  | some i =>
      cases i
      case input =>
        cases unread : m.input.unread with
        | nil => simp [execute, Buffer.next?_of_nil unread] at done
        | cons first rest =>
            obtain ⟨queue, next, _, _⟩ := Buffer.next?_of_cons unread
            simp [execute, next] at done
      case output =>
        by_cases room : m.output.length < m.output.capacity
        · simp [execute, room] at done
        · simp only [execute, dif_neg room, Attempt.refused.injEq] at done
          exact ⟨rfl, Nat.le_of_not_lt room, done.symm⟩
      all_goals simp [execute] at done

theorem Executes.sameFrame (run : m.Executes m') : SameFrame m m' := by
  obtain ⟨byte, _, done⟩ := run
  exact (execute_frame done).1

theorem Executes.count (run : m.Executes m') : m'.count = m.count + 1 := by
  obtain ⟨byte, _, done⟩ := run
  exact (execute_frame done).2.1

theorem Executes.live (run : m.Executes m') (live : m.state ≠ .halted) : m'.state ≠ .halted := by
  obtain ⟨byte, _, done⟩ := run
  rw [(execute_frame done).2.2]
  split
  · exact RunState.noConfusion
  · exact live

theorem Executes.next? {k : Code} (run : m.Executes m') (holds : m.Holds k) :
    k.next? m.config = some m'.config := by
  obtain ⟨byte, fetched, done⟩ := run
  have found : k.program[m.config.pc]? = some byte := holds.fetch.trans fetched
  rw [Code.next?, found]
  exact execute_effect holds.jumps done

theorem Runs.sameFrame {n : Nat} (run : Runs n m m') : SameFrame m m' := by
  induction run with
  | refl m => exact SameFrame.refl m
  | step first _ ih => exact first.sameFrame.trans ih

theorem Runs.live {n : Nat} (run : Runs n m m') (live : m.state ≠ .halted) :
    m'.state ≠ .halted := by
  induction run with
  | refl m => exact live
  | step first _ ih => exact ih (first.live live)

theorem Runs.count {n : Nat} (run : Runs n m m') : m'.count = m.count + Int64.ofNat n := by
  induction run with
  | refl m => simp
  | @step n _ _ _ first _ ih =>
      have one : Int64.ofNat (n + 1) = 1 + Int64.ofNat n := by
        rw [Int64.ofNat_add, Int64.add_comm]
        rfl
      rw [ih, first.count, one, Int64.add_assoc]

theorem Runs.advance {n : Nat} {k : Code} (run : Runs n m m') (holds : m.Holds k) :
    k.advance n m.config = some m'.config := by
  induction run with
  | refl m => rfl
  | step first _ ih =>
      rw [Code.advance, first.next? holds]
      exact ih (holds.of_sameFrame first.sameFrame)

theorem exec_cases (bound : Bound) (executed : Nat) (m : Machine) :
    (∃ stop, StopsAs bound executed m stop ∧ ∀ fuel,
      exec bound (fuel + 1) executed m = some stop ∧
        instructions bound (fuel + 1) executed m = 0) ∨
    ∃ m₁, m.Executes m₁ ∧ ∀ fuel,
      exec bound (fuel + 1) executed m = exec bound fuel (executed + 1) m₁ ∧
        instructions bound (fuel + 1) executed m = instructions bound fuel (executed + 1) m₁ + 1 := by
  by_cases inside : m.pc < m.program.size
  · have fetched : m.program[m.pc]? = some m.program[m.pc] := Array.getElem?_eq_getElem inside
    by_cases reached : bound.reached m.pc executed = true
    · refine Or.inl ⟨.bounded m, .bounded inside reached, fun fuel => ?_⟩
      simp [exec, instructions, inside, reached]
    · cases attempt : m.execute (Instruction.ofByte? m.program[m.pc]) with
      | executed m₁ =>
          refine Or.inr ⟨m₁, ⟨_, fetched, attempt⟩, fun fuel => ?_⟩
          simp [exec, instructions, inside, reached, attempt]
      | starved m₁ =>
          obtain ⟨known, empty, rfl⟩ := execute_starved attempt
          rw [Instruction.ofByte?_eq_some_iff] at known
          refine Or.inl ⟨_, .starved (fetched.trans (congrArg some known)) empty, fun fuel => ?_⟩
          simp [exec, instructions, inside, reached, attempt]
      | refused m₁ =>
          obtain ⟨known, full, same⟩ := execute_refused attempt
          rw [Instruction.ofByte?_eq_some_iff] at known
          refine Or.inl ⟨_, .refused (fetched.trans (congrArg some known)) full, fun fuel => ?_⟩
          simp [exec, instructions, inside, reached, attempt, same]
  · refine Or.inl ⟨_, .halted (Nat.le_of_not_lt inside), fun fuel => ?_⟩
    simp [exec, instructions, inside]

theorem exec_eq_some {bound : Bound} {fuel executed : Nat} {stop : Stop}
    (ran : exec bound fuel executed m = some stop) :
    ∃ m', Runs (instructions bound fuel executed m) m m' ∧
      StopsAs bound (executed + instructions bound fuel executed m) m' stop := by
  induction fuel generalizing executed m with
  | zero => simp [exec] at ran
  | succ fuel ih =>
      rcases exec_cases bound executed m with ⟨stop', stops, now⟩ | ⟨m₁, first, later⟩
      · rw [(now fuel).1, Option.some.injEq] at ran
        rw [(now fuel).2, ← ran]
        exact ⟨m, .refl m, stops⟩
      · rw [(later fuel).1] at ran
        obtain ⟨m', rest, stops⟩ := ih ran
        rw [Nat.add_assoc, Nat.add_comm 1] at stops
        rw [(later fuel).2]
        exact ⟨m', .step first rest, stops⟩

theorem exec_mono {bound : Bound} {fuel fuel' executed : Nat} {stop : Stop}
    (ran : exec bound fuel executed m = some stop) (more : fuel ≤ fuel') :
    exec bound fuel' executed m = some stop := by
  induction fuel generalizing m fuel' executed with
  | zero => simp [exec] at ran
  | succ fuel ih =>
      obtain ⟨fuel', rfl⟩ : ∃ f, fuel' = f + 1 := ⟨fuel' - 1, by omega⟩
      rcases exec_cases bound executed m with ⟨stop', _, now⟩ | ⟨m₁, _, later⟩
      · rw [(now fuel).1] at ran
        rw [(now fuel').1, ran]
      · rw [(later fuel).1] at ran
        rw [(later fuel').1]
        exact ih ran (Nat.le_of_succ_le_succ more)

theorem exec_of_stopped {k : Code} {n fuel : Nat} {c : Config} {before after : List UInt8}
    (bound : Bound) (executed : Nat) (holds : m.Holds k)
    (run : k.advance n (m.config.within before after) = some c) (stopped : k.next? c = none)
    (enough : n < fuel) : ∃ stop, exec bound fuel executed m = some stop := by
  induction n generalizing m fuel executed with
  | zero =>
      obtain ⟨fuel, rfl⟩ : ∃ fuel', fuel = fuel' + 1 := ⟨fuel - 1, by omega⟩
      rcases exec_cases bound executed m with ⟨stop, _, now⟩ | ⟨m₁, first, _⟩
      · exact ⟨stop, (now fuel).1⟩
      · simp only [Code.advance, Option.some.injEq] at run
        rw [← run, Code.next?_within before after (first.next? holds)] at stopped
        cases stopped
  | succ n ih =>
      obtain ⟨fuel, rfl⟩ : ∃ fuel', fuel = fuel' + 1 := ⟨fuel - 1, by omega⟩
      rcases exec_cases bound executed m with ⟨stop, _, now⟩ | ⟨m₁, first, later⟩
      · exact ⟨stop, (now fuel).1⟩
      · rw [Code.advance, Code.next?_within before after (first.next? holds)] at run
        rw [(later fuel).1]
        exact ih _ (holds.of_sameFrame first.sameFrame) run (Nat.lt_of_succ_lt_succ enough)

private theorem Holds.capacity_lt_of_refused {k : Code} {n : Nat} {c : Config} (holds : m.Holds k)
    (wants : m.program[m.pc]? = some Instruction.output.toByte)
    (full : m.output.capacity ≤ m.output.length) (run : k.advance n m.config = some c)
    (stopped : k.next? c = none) : m.output.capacity < c.output.length := by
  have fetched : k.program[m.config.pc]? = some Instruction.output.toByte := holds.fetch.trans wants
  have step : k.next? m.config = some { m.config with
      pc := m.pc + 1, output := m.output.unread ++ [m.tape.read] } := by
    rw [Code.next?, fetched]
    rfl
  obtain ⟨_, _, rest⟩ := Code.exists_advance_of_next? step run stopped
  have longer := (Code.advance_streams rest).2.length_le
  simp only [List.length_append, List.length_singleton, Buffer.length_unread] at longer
  omega

end Machine

def Stop.outcome : Stop → Outcome
  | .halted m => ⟨m, none⟩
  | .starved m => ⟨m, none⟩
  | .bounded m => ⟨m, none⟩
  | .refused m => ⟨m, some (.outputFull m.pc (m.output.full 1))⟩

theorem Machine.runWithin_of_live (bound : Bound) (fuel : Nat) {m : Machine}
    (prepared : m.prepared = true) (live : m.state ≠ .halted) :
    m.runWithin bound fuel = (exec bound fuel 0 m).map Stop.outcome := by
  unfold runWithin
  rw [if_neg (by simp [prepared]), if_neg live]
  cases exec bound fuel 0 m with
  | none => rfl
  | some stop => cases stop <;> rfl

/-- A run without error ends where the ideal machine stops, and nowhere else, if the output queue can
hold the output. -/
theorem Machine.run_iff {k : Code} {m : Machine} {state : RunState} {c : Config}
    (holds : m.Holds k) (prepared : m.prepared = true) (live : m.state ≠ .halted) :
    (∃ fuel m', m.run fuel = some ⟨m', none⟩ ∧ m'.state = state ∧ m'.config = c) ↔
      c.output.length ≤ m.output.capacity ∧ ∃ n, k.advance n m.config = some c ∧
        (state = .halted ∧ k.Halted c ∨ state = .waiting ∧ k.Blocked c) := by
  constructor
  · rintro ⟨fuel, m', ran, rfl, rfl⟩
    rw [run, runWithin_of_live _ _ prepared live, Option.map_eq_some_iff] at ran
    obtain ⟨stop, ran, outcome⟩ := ran
    obtain ⟨m₁, run, stops⟩ := exec_eq_some ran
    generalize instructions .unbounded fuel 0 m = n at run stops
    have holds₁ := holds.of_sameFrame run.sameFrame
    have fits : m₁.config.output.length ≤ m.output.capacity := by
      rw [← run.sameFrame.output, config, Buffer.length_unread]
      exact Buffer.length_le_capacity _
    cases stops with
    | halted ended =>
        cases outcome
        exact ⟨fits, n, run.advance holds, Or.inl ⟨rfl, holds₁.halted_iff.mpr ended⟩⟩
    | starved wants empty =>
        cases outcome
        exact ⟨fits, n, run.advance holds, Or.inr ⟨rfl, holds₁.fetch.trans wants, empty⟩⟩
    | bounded inside reached => cases reached
    | refused wants full => cases outcome
  · rintro ⟨fits, n, run, ends⟩
    have stopped : k.next? c = none := Code.next?_eq_none_iff.mpr (ends.imp And.right And.right)
    have within : m.config.within [] [] = m.config := by simp [Config.within]
    rw [← within] at run
    obtain ⟨stop, ran⟩ := exec_of_stopped .unbounded 0 holds run stopped (Nat.lt_succ_self n)
    rw [within] at run
    obtain ⟨m₁, run₁, stops⟩ := exec_eq_some ran
    generalize instructions .unbounded (n + 1) 0 m = n₁ at run₁ stops
    have holds₁ := holds.of_sameFrame run₁.sameFrame
    have advanced := run₁.advance holds
    have outcome : m.run (n + 1) = some stop.outcome := by
      rw [Machine.run, runWithin_of_live _ _ prepared live, ran]
      rfl
    cases stops with
    | halted ended =>
        have halted := holds₁.halted_iff.mpr ended
        obtain ⟨rfl, rfl⟩ := Code.stopped_unique run stopped advanced
          (Code.next?_eq_none_iff.mpr (Or.inl halted))
        rcases ends with ⟨rfl, _⟩ | ⟨_, blocked⟩
        · exact ⟨_, _, outcome, rfl, rfl⟩
        · exact absurd halted (Code.not_halted_of_blocked blocked)
    | starved wants empty =>
        have blocked : k.Blocked m₁.config := ⟨holds₁.fetch.trans wants, empty⟩
        obtain ⟨rfl, rfl⟩ := Code.stopped_unique run stopped advanced
          (Code.next?_eq_none_iff.mpr (Or.inr blocked))
        rcases ends with ⟨_, halted⟩ | ⟨rfl, _⟩
        · exact absurd halted (Code.not_halted_of_blocked blocked)
        · exact ⟨_, _, outcome, rfl, rfl⟩
    | bounded inside reached => cases reached
    | refused wants full =>
        have left := Code.advance_sub_of_stopped run stopped advanced
        have more := holds₁.capacity_lt_of_refused wants full left stopped
        rw [← run₁.sameFrame.output] at fits
        exact absurd fits (Nat.not_le_of_lt more)

/-- The number of instructions that a call to run a machine executes. -/
def Machine.executed (bound : Bound) (fuel : Nat) (m : Machine) : Nat :=
  if m.prepared = true ∧ m.state ≠ .halted then instructions bound fuel 0 m else 0

private theorem Machine.runWithin_of_not_runnable (bound : Bound) (fuel : Nat) {m : Machine}
    {out : Outcome}
    (idle : ¬ (m.prepared = true ∧ m.state ≠ .halted)) (ran : m.runWithin bound fuel = some out) :
    out.machine = m := by
  unfold runWithin at ran
  split at ran
  · cases ran
    rfl
  · split at ran
    · cases ran
      rfl
    · simp_all

theorem Machine.runWithin_mono {bound : Bound} {fuel fuel' : Nat} {m : Machine} {out : Outcome}
    (ran : m.runWithin bound fuel = some out) (more : fuel ≤ fuel') :
    m.runWithin bound fuel' = some out := by
  by_cases runnable : m.prepared = true ∧ m.state ≠ .halted
  · obtain ⟨prepared, live⟩ := runnable
    rw [runWithin_of_live _ _ prepared live, Option.map_eq_some_iff] at ran ⊢
    obtain ⟨stop, ran, outcome⟩ := ran
    exact ⟨stop, exec_mono ran more, outcome⟩
  · unfold runWithin at ran ⊢
    split at ran
    case isTrue unprepared => rwa [if_pos unprepared]
    case isFalse prepared =>
      split at ran
      case isTrue halted => rwa [if_neg prepared, if_pos halted]
      case isFalse live => simp_all

theorem Machine.runWithin_cases {bound : Bound} {fuel : Nat} {m : Machine} {out : Outcome}
    (ran : m.runWithin bound fuel = some out) :
    m.executed bound fuel = 0 ∧ out.machine = m ∨
      m.state ≠ .halted ∧ ∃ m' stop, Runs (m.executed bound fuel) m m' ∧
        StopsAs bound (m.executed bound fuel) m' stop ∧ out = stop.outcome := by
  by_cases runnable : m.prepared = true ∧ m.state ≠ .halted
  · obtain ⟨prepared, live⟩ := runnable
    rw [runWithin_of_live bound fuel prepared live, Option.map_eq_some_iff] at ran
    obtain ⟨stop, ran, rfl⟩ := ran
    obtain ⟨m', run, stops⟩ := exec_eq_some ran
    rw [Nat.zero_add] at stops
    rw [executed, if_pos ⟨prepared, live⟩]
    exact Or.inr ⟨live, m', stop, run, stops, rfl⟩
  · have same := runWithin_of_not_runnable bound fuel runnable ran
    rw [executed, if_neg runnable]
    exact Or.inl ⟨rfl, same⟩

theorem Machine.runWithin_eq_some {bound : Bound} {fuel : Nat} {m : Machine} {out : Outcome}
    (ran : m.runWithin bound fuel = some out) :
    ∃ m', Runs (m.executed bound fuel) m m' ∧
      out.machine = { m' with state := out.machine.state } := by
  rcases runWithin_cases ran with ⟨none_executed, same⟩ | ⟨_, m', stop, run, stops, rfl⟩
  · rw [none_executed, same]
    exact ⟨m, .refl m, rfl⟩
  · refine ⟨m', run, ?_⟩
    cases stops <;> rfl

end TapeMachine
