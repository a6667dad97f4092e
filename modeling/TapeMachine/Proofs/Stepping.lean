import TapeMachine.Proofs.Consistency
/-!
# Running in steps

Running, running up to an offset and stepping share one loop and differ in when they stop by
themselves. To run is to step until a step is the last one: it fails, waits or halts. To run up to an
offset is to look at the program counter before each of these steps. A run can be broken off at an
earlier offset and taken up again without a difference.
-/

set_option autoImplicit false
set_option relaxedAutoImplicit false

namespace TapeMachine

def Outcome.isLast (out : Outcome) : Bool :=
  out.error.isSome || out.machine.isWaiting || out.machine.state == .halted

/-- The bound looks at the program counter only, in this way. -/
def Bound.Tests (bound : Bound) (enough : Nat → Bool) : Prop :=
  ∀ pc executed, bound.reached pc executed = enough pc

theorem Bound.unbounded_tests : Bound.unbounded.Tests fun _ => false := fun _ _ => rfl

private theorem Bound.past_tests (offset : Int) : (Bound.past offset).Tests fun pc => offset < pc :=
  fun _ _ => rfl

namespace Machine

/-- Steps until one is the last, or until the test says that the program counter has come far enough.
The test is not made at the end of the program, where one more step halts the machine. `none` if
`turns` steps did not suffice. -/
def stepUntil (enough : Nat → Bool) : (turns : Nat) → Machine → Option Outcome
  | 0, _ => none
  | turns + 1, m =>
    if m.pc < m.program.size && enough m.pc then some ⟨m, none⟩
    else
      match m.step with
      | none => none
      | some out => if out.isLast then some out else stepUntil enough turns out.machine

variable {m m₁ : Machine} {bound : Bound} {enough : Nat → Bool}

private theorem exec_of_reached (fuel : Nat) {executed : Nat} (inside : m.pc < m.program.size)
    (reached : bound.reached m.pc executed = true) :
    exec bound (fuel + 1) executed m = some (.bounded m) := by
  simp [exec, inside, reached]

theorem exec_of_executes (fuel : Nat) {executed : Nat} (first : m.Executes m₁)
    (free : bound.reached m.pc executed = false) :
    exec bound (fuel + 1) executed m = exec bound fuel (executed + 1) m₁ := by
  obtain ⟨byte, fetched, done⟩ := first
  obtain ⟨inside, rfl⟩ := Array.getElem?_eq_some_iff.mp fetched
  simp [exec, inside, free, done]

theorem exec_of_stopsAs (fuel : Nat) {executed : Nat} {stop : Stop}
    (stops : StopsAs .unbounded 0 m stop)
    (free : m.pc < m.program.size → bound.reached m.pc executed = false) :
    exec bound (fuel + 1) executed m = some stop := by
  cases stops with
  | halted ended => simp [exec, Nat.not_lt.mpr ended]
  | bounded inside reached => cases reached
  | starved wants empty =>
      obtain ⟨inside, byte⟩ := Array.getElem?_eq_some_iff.mp wants
      simp [exec, inside, free inside, byte, execute, Buffer.next?_of_nil empty]
  | refused wants full =>
      obtain ⟨inside, byte⟩ := Array.getElem?_eq_some_iff.mp wants
      simp [exec, inside, free inside, byte, execute, Nat.not_lt.mpr full]

theorem executes_or_stopsAs (m : Machine) :
    (∃ m₁, m.Executes m₁) ∨ ∃ stop, StopsAs .unbounded 0 m stop := by
  rcases exec_cases .unbounded 0 m with ⟨stop, stops, _⟩ | ⟨m₁, first, _⟩
  · exact Or.inr ⟨stop, stops⟩
  · exact Or.inl ⟨m₁, first⟩

theorem Executes.inside (first : m.Executes m₁) : m.pc < m.program.size := by
  obtain ⟨byte, fetched, _⟩ := first
  exact (Array.getElem?_eq_some_iff.mp fetched).1

private theorem StopsAs.isLast {stop : Stop} (stops : StopsAs .unbounded 0 m stop) :
    stop.outcome.isLast = true := by
  cases stops with
  | halted ended => rfl
  | bounded inside reached => cases reached
  | starved wants empty => rfl
  | refused wants full => rfl

theorem step_of_stopsAs {stop : Stop} (prepared : m.prepared = true) (live : m.state ≠ .halted)
    (stops : StopsAs .unbounded 0 m stop) : m.step = some stop.outcome := by
  have ran : exec (.after 1) 2 0 m = some stop := exec_of_stopsAs 1 stops fun _ => rfl
  rw [step, runWithin_of_live _ _ prepared live, ran]
  rfl

def settle (m : Machine) : Machine :=
  if m.pc < m.program.size then m else { m with state := .halted }

theorem step_of_executes (prepared : m.prepared = true) (live : m.state ≠ .halted)
    (first : m.Executes m₁) : m.step = some ⟨m₁.settle, none⟩ := by
  have ran : exec (.after 1) 2 0 m = exec (.after 1) 1 1 m₁ := exec_of_executes 1 first rfl
  rw [step, runWithin_of_live _ _ prepared live, ran]
  by_cases inside : m₁.pc < m₁.program.size
  · rw [exec_of_reached 0 inside rfl, settle, if_pos inside]
    rfl
  · have stops : StopsAs .unbounded 0 m₁ _ := .halted (Nat.le_of_not_lt inside)
    rw [exec_of_stopsAs 0 stops fun h => absurd h inside, settle, if_neg inside]
    rfl

/-- What a machine still has to know of itself to be run: it holds a program that has not come to its
end. -/
structure Ready (m : Machine) : Prop extends Sound m where
  prepared : m.prepared = true
  live : m.state ≠ .halted

theorem Ready.executes (ready : m.Ready) (first : m.Executes m₁) : m₁.Ready := by
  refine ⟨ready.toSound.of_executes ready.live first, ?_, first.live ready.live⟩
  rw [first.sameFrame.prepared]
  exact ready.prepared

private theorem Ready.stepUntil_of_stopsAs (turns : Nat) {stop : Stop} (ready : m.Ready)
    (stops : StopsAs .unbounded 0 m stop) (free : m.pc < m.program.size → enough m.pc = false) :
    m.stepUntil enough (turns + 1) = some stop.outcome := by
  have untested : (decide (m.pc < m.program.size) && enough m.pc) = false := by
    simpa using free
  have step := step_of_stopsAs ready.prepared ready.live stops
  simp [stepUntil, untested, step, stops.isLast]

private theorem Ready.stepUntil_of_executes (turns : Nat) (ready : m.Ready) (first : m.Executes m₁)
    (free : enough m.pc = false) :
    m.stepUntil enough (turns + 1) =
      if m₁.pc < m₁.program.size then m₁.stepUntil enough turns
      else some ⟨{ m₁ with state := .halted }, none⟩ := by
  have step := step_of_executes ready.prepared ready.live first
  have running := ready.toSound.running_of_executes ready.live first
  by_cases inside : m₁.pc < m₁.program.size
  · have onward : (Outcome.mk m₁ none).isLast = false := by
      simp [Outcome.isLast, isWaiting, running]
    rw [settle, if_pos inside] at step
    simp [stepUntil, free, step, onward, inside]
  · rw [settle, if_neg inside] at step
    simp [stepUntil, free, step, Outcome.isLast, inside]

private theorem stepUntil_of_reached (turns : Nat) (inside : m.pc < m.program.size)
    (reached : enough m.pc = true) : m.stepUntil enough (turns + 1) = some ⟨m, none⟩ := by
  simp [stepUntil, inside, reached]

private theorem turn_cases (m : Machine) (enough : Nat → Bool) :
    m.pc < m.program.size ∧ enough m.pc = true ∨
      (∃ stop, StopsAs .unbounded 0 m stop ∧ (m.pc < m.program.size → enough m.pc = false)) ∨
      ∃ m₁, m.Executes m₁ ∧ enough m.pc = false := by
  by_cases reached : m.pc < m.program.size ∧ enough m.pc = true
  · exact Or.inl reached
  · have free (inside : m.pc < m.program.size) : enough m.pc = false :=
      Bool.eq_false_iff.mpr fun passed => reached ⟨inside, passed⟩
    rcases m.executes_or_stopsAs with ⟨m₁, first⟩ | ⟨stop, stops⟩
    · exact Or.inr (Or.inr ⟨m₁, first, free first.inside⟩)
    · exact Or.inr (Or.inl ⟨stop, stops, free⟩)

private theorem exec_of_ended {executed : Nat} (fuel : Nat) (ended : ¬ m.pc < m.program.size) :
    exec bound (fuel + 1) executed m = some (.halted { m with state := .halted }) :=
  exec_of_stopsAs fuel (.halted (Nat.le_of_not_lt ended)) fun inside => absurd inside ended

theorem Ready.stepUntil_of_exec {fuel executed : Nat} {stop : Stop} (ready : m.Ready)
    (tests : bound.Tests enough) (ran : exec bound fuel executed m = some stop) :
    m.stepUntil enough fuel = some stop.outcome := by
  induction fuel generalizing m executed with
  | zero => simp [exec] at ran
  | succ fuel ih =>
      rcases turn_cases m enough with ⟨inside, reached⟩ | ⟨stop', stops, free⟩ | ⟨m₁, first, free⟩
      · rw [exec_of_reached fuel inside (by rw [tests, reached]), Option.some.injEq] at ran
        rw [stepUntil_of_reached fuel inside reached, ← ran]
        rfl
      · rw [exec_of_stopsAs fuel stops fun inside => by rw [tests, free inside], Option.some.injEq]
          at ran
        rw [ready.stepUntil_of_stopsAs fuel stops free, ran]
      · rw [exec_of_executes fuel first (by rw [tests, free])] at ran
        rw [ready.stepUntil_of_executes fuel first free]
        split
        case isTrue => exact ih (ready.executes first) ran
        case isFalse ended =>
          -- The step has seen the end of the program; the run sees it in its next turn.
          cases fuel with
          | zero => simp [exec] at ran
          | succ fuel =>
              rw [exec_of_ended fuel ended, Option.some.injEq] at ran
              rw [← ran]
              rfl

theorem Ready.exec_of_stepUntil {turns executed : Nat} {out : Outcome} (ready : m.Ready)
    (tests : bound.Tests enough) (stepped : m.stepUntil enough turns = some out) :
    ∃ stop, exec bound (turns + 1) executed m = some stop ∧ stop.outcome = out := by
  induction turns generalizing m executed with
  | zero => simp [stepUntil] at stepped
  | succ turns ih =>
      rcases turn_cases m enough with ⟨inside, reached⟩ | ⟨stop, stops, free⟩ | ⟨m₁, first, free⟩
      · rw [stepUntil_of_reached turns inside reached, Option.some.injEq] at stepped
        exact ⟨.bounded m, exec_of_reached (turns + 1) inside (by rw [tests, reached]), stepped⟩
      · rw [ready.stepUntil_of_stopsAs turns stops free, Option.some.injEq] at stepped
        have ran : exec bound (turns + 1 + 1) executed m = some stop :=
          exec_of_stopsAs (turns + 1) stops fun inside => by rw [tests, free inside]
        exact ⟨stop, ran, stepped⟩
      · rw [ready.stepUntil_of_executes turns first free] at stepped
        rw [exec_of_executes (turns + 1) first (by rw [tests, free])]
        split at stepped
        case isTrue => exact ih (ready.executes first) stepped
        case isFalse ended =>
          rw [Option.some.injEq] at stepped
          exact ⟨_, exec_of_ended turns ended, stepped⟩

theorem Ready.runWithin_iff_stepUntil {out : Outcome} (ready : m.Ready)
    (tests : bound.Tests enough) :
    (∃ fuel, m.runWithin bound fuel = some out) ↔ ∃ turns, m.stepUntil enough turns = some out := by
  constructor
  · rintro ⟨fuel, ran⟩
    rw [runWithin_of_live bound fuel ready.prepared ready.live, Option.map_eq_some_iff] at ran
    obtain ⟨stop, ran, rfl⟩ := ran
    exact ⟨fuel, ready.stepUntil_of_exec tests ran⟩
  · rintro ⟨turns, stepped⟩
    obtain ⟨stop, ran, outcome⟩ := ready.exec_of_stepUntil tests stepped
    refine ⟨turns + 1, ?_⟩
    rw [runWithin_of_live bound (turns + 1) ready.prepared ready.live, ran, Option.map_some, outcome]

private theorem exec_of_tests (tests : bound.Tests enough) (fuel executed executed' : Nat) :
    exec bound fuel executed m = exec bound fuel executed' m := by
  induction fuel generalizing m executed executed' with
  | zero => rfl
  | succ fuel ih =>
      rcases turn_cases m enough with ⟨inside, reached⟩ | ⟨stop, stops, free⟩ | ⟨m₁, first, free⟩
      · rw [exec_of_reached fuel inside (by rw [tests, reached]),
          exec_of_reached fuel inside (by rw [tests, reached])]
      · rw [exec_of_stopsAs fuel stops fun inside => by rw [tests, free inside],
          exec_of_stopsAs fuel stops fun inside => by rw [tests, free inside]]
      · rw [exec_of_executes fuel first (by rw [tests, free]),
          exec_of_executes fuel first (by rw [tests, free])]
        exact ih (executed + 1) (executed' + 1)

private theorem exec_of_broken_off {earlier later : Nat → Bool} {bound₁ : Bound} {fuel executed : Nat}
    {stop : Stop} (tests₁ : bound₁.Tests earlier) (tests : bound.Tests later)
    (before : ∀ pc, later pc = true → earlier pc = true)
    (ran : exec bound₁ fuel executed m = some stop) (live : stop.outcome.machine.state ≠ .halted) :
    ∃ n, ∀ more, exec bound (n + (more + 1)) executed m =
      exec bound (more + 1) 0 stop.outcome.machine := by
  induction fuel generalizing m executed with
  | zero => simp [exec] at ran
  | succ fuel ih =>
      rcases turn_cases m earlier with ⟨inside, reached⟩ | ⟨stop', stops, free⟩ | ⟨m₁, first, free⟩
      · rw [exec_of_reached fuel inside (by rw [tests₁, reached]), Option.some.injEq] at ran
        subst ran
        refine ⟨0, fun more => ?_⟩
        rw [Nat.zero_add]
        exact exec_of_tests tests (more + 1) executed 0
      · rw [exec_of_stopsAs fuel stops fun inside => by rw [tests₁, free inside], Option.some.injEq]
          at ran
        subst ran
        have free' (inside : m.pc < m.program.size) : later m.pc = false :=
          Bool.eq_false_iff.mpr fun passed => by simp [before _ passed] at free; omega
        refine ⟨0, fun more => ?_⟩
        rw [Nat.zero_add, exec_of_stopsAs more stops fun inside => by rw [tests, free' inside]]
        cases stops with
        | halted ended => exact absurd rfl live
        | bounded inside reached => cases reached
        | starved wants empty =>
            -- The machine waits now, but stands where it stood and still has no input.
            have again : StopsAs .unbounded 0 { m with state := .waiting } (.starved _) :=
              .starved wants empty
            exact (exec_of_stopsAs more again fun inside => by rw [tests]; exact free' inside).symm
        | refused wants full =>
            have again : StopsAs .unbounded 0 m (.refused m) := .refused wants full
            exact (exec_of_stopsAs more again fun inside => by rw [tests, free' inside]).symm
      · have free' : later m.pc = false :=
          Bool.eq_false_iff.mpr fun passed => by simp [before _ passed] at free
        rw [exec_of_executes fuel first (by rw [tests₁, free])] at ran
        obtain ⟨n, onward⟩ := ih ran
        refine ⟨n + 1, fun more => ?_⟩
        rw [show n + 1 + (more + 1) = n + (more + 1) + 1 by omega,
          exec_of_executes _ first (by rw [tests, free'])]
        exact onward more

theorem Ready.runWithin_broken_off_iff {earlier later : Nat → Bool} {bound₁ : Bound} {fuel : Nat}
    {out₁ out : Outcome} (ready : m.Ready) (tests₁ : bound₁.Tests earlier)
    (tests : bound.Tests later) (before : ∀ pc, later pc = true → earlier pc = true)
    (ran : m.runWithin bound₁ fuel = some out₁) (live : out₁.machine.state ≠ .halted) :
    (∃ fuel, out₁.machine.runWithin bound fuel = some out) ↔
      ∃ fuel, m.runWithin bound fuel = some out := by
  have prepared : out₁.machine.prepared = true := by
    obtain ⟨m', runs, view⟩ := runWithin_eq_some ran
    rw [view]
    exact runs.sameFrame.prepared.trans ready.prepared
  rw [runWithin_of_live bound₁ fuel ready.prepared ready.live, Option.map_eq_some_iff] at ran
  obtain ⟨stop, ran, rfl⟩ := ran
  obtain ⟨n, onward⟩ := exec_of_broken_off tests₁ tests before ran live
  simp only [runWithin_of_live bound _ prepared live,
    runWithin_of_live bound _ ready.prepared ready.live, Option.map_eq_some_iff]
  constructor
  · rintro ⟨fuel, stop', again, outcome⟩
    have more := exec_mono again (Nat.le_succ fuel)
    exact ⟨n + (fuel + 1), stop', (onward fuel).trans more, outcome⟩
  · rintro ⟨fuel, stop', whole, outcome⟩
    have more := exec_mono whole (show fuel ≤ n + (fuel + 1) by omega)
    exact ⟨fuel + 1, stop', (onward fuel).symm.trans more, outcome⟩

theorem Ready.step_cases (ready : m.Ready) :
    ∃ out, m.step = some out ∧
      (out.error = none → out.machine.isWaiting = false → m.pc < m.program.size →
        out.machine.count = m.count + 1) ∧
      (out.machine.isWaiting = true → out.error = none ∧ out.machine = { m with state := .waiting }) ∧
      (out.error ≠ none → out.machine = m) := by
  rcases m.executes_or_stopsAs with ⟨m₁, first⟩ | ⟨stop, stops⟩
  · have running := ready.toSound.running_of_executes ready.live first
    refine ⟨_, step_of_executes ready.prepared ready.live first, ?_, ?_, fun failed => absurd rfl failed⟩
    · intro _ _ _
      rw [← first.count, settle]
      split <;> rfl
    · intro waiting
      unfold settle at waiting
      split at waiting
      · simp [isWaiting, running] at waiting
      · cases waiting
  · refine ⟨_, step_of_stopsAs ready.prepared ready.live stops, ?_⟩
    cases stops with
    | halted ended =>
        refine ⟨fun _ _ inside => absurd inside (Nat.not_lt.mpr ended), ?_, fun failed => absurd rfl failed⟩
        intro waiting
        cases waiting
    | bounded inside reached => cases reached
    | starved wants empty =>
        refine ⟨?_, fun _ => ⟨rfl, rfl⟩, fun failed => absurd rfl failed⟩
        intro _ waiting
        cases waiting
    | refused wants full =>
        refine ⟨?_, ?_, fun _ => rfl⟩
        · intro failed
          cases failed
        · intro waiting
          have state : m.state = .waiting := by simpa [isWaiting, Stop.outcome] using waiting
          have other := ready.waiting state
          rw [wants] at other
          cases other

theorem Consistent.ready (consistent : m.Consistent) (prepared : m.prepared = true)
    (live : m.state ≠ .halted) : m.Ready :=
  ⟨consistent.toSound, prepared, live⟩

theorem runWithin_of_idle (idle : m.prepared = false ∨ m.state = .halted) :
    ∃ e : RunError, e.report.cause = "invalid state" ∧
      ∀ bound fuel, m.runWithin bound fuel = some ⟨m, some e⟩ := by
  by_cases prepared : m.prepared = true
  · have halted : m.state = .halted := by simpa [prepared] using idle
    exact ⟨.finished, rfl, fun bound fuel => by simp [runWithin, prepared, halted]⟩
  · exact ⟨.unprepared, rfl, fun bound fuel => by simp [runWithin, prepared]⟩

private theorem toInt_succ {n : Int64} (small : n ≠ Int64.maxValue) :
    (n + 1).toInt = n.toInt + 1 := by
  have upper := Int64.toInt_lt n
  have lower := Int64.le_toInt n
  have top : Int64.maxValue.toInt = 0x7fffffffffffffff := rfl
  have one : (1 : Int64).toInt = 1 := rfl
  have below : n.toInt ≠ Int64.maxValue.toInt := fun same => small (Int64.toInt_inj.mp same)
  rw [Int64.toInt_add, one]
  apply Int.bmod_eq_of_le
  · omega
  · omega

/-- A reachable machine that holds no program, or has halted, refuses to be run in all three ways and
stays as it is. Any other one is run by stepping until a step is the last, and run up to an offset by
testing for the offset before each of these steps; a run up to an earlier offset that does not halt
the machine makes no difference to a later run. A step always returns. It counts one instruction
unless it fails, waits or starts at the end of the program; waiting changes the run state only, and
failing changes nothing. -/
theorem runs_are_steps (reached : m.Reachable) :
    ((m.prepared = false ∨ m.state = .halted) → ∃ e : RunError, e.report.cause = "invalid state" ∧
      (∀ fuel, m.run fuel = some ⟨m, some e⟩) ∧
      (∀ fuel offset, m.runUpTo fuel offset = some ⟨m, some e⟩) ∧ m.step = some ⟨m, some e⟩) ∧
    (m.prepared = true → m.state ≠ .halted →
      (∀ out, (∃ fuel, m.run fuel = some out) ↔
        ∃ turns, m.stepUntil (fun _ => false) turns = some out) ∧
      (∀ offset out, (∃ fuel, m.runUpTo fuel offset = some out) ↔
        ∃ turns, m.stepUntil (fun pc => offset < pc) turns = some out) ∧
      (∀ a b fuel out₁, a ≤ b → m.runUpTo fuel a = some out₁ → out₁.machine.state ≠ .halted →
        ∀ out, ((∃ fuel, out₁.machine.runUpTo fuel b = some out) ↔
            ∃ fuel, m.runUpTo fuel b = some out) ∧
          ((∃ fuel, out₁.machine.run fuel = some out) ↔ ∃ fuel, m.run fuel = some out)) ∧
      ∃ out, m.step = some out ∧
        (out.error = none → out.machine.isWaiting = false → m.pc < m.program.size →
          out.machine.count = m.count + 1 ∧
            (m.count ≠ Int64.maxValue → out.machine.count.toInt = m.count.toInt + 1)) ∧
        (out.machine.isWaiting = true →
          out.error = none ∧ out.machine = { m with state := .waiting }) ∧
        (out.error ≠ none → out.machine = m)) := by
  refine ⟨fun idle => ?_, fun prepared live => ?_⟩
  · obtain ⟨e, cause, refuses⟩ := runWithin_of_idle idle
    exact ⟨e, cause, refuses .unbounded, fun fuel offset => refuses (.past offset) fuel,
      refuses (.after 1) 2⟩
  · have ready := reached.consistent.ready prepared live
    refine ⟨fun out => ready.runWithin_iff_stepUntil Bound.unbounded_tests,
      fun offset out => ready.runWithin_iff_stepUntil (Bound.past_tests offset), ?_, ?_⟩
    · intro a b fuel out₁ order ran live₁ out
      have tests := Bound.past_tests a
      have later (pc : Nat) (passed : decide (b < (pc : Int)) = true) :
          decide (a < (pc : Int)) = true := by
        simp only [decide_eq_true_eq] at passed ⊢
        omega
      exact ⟨ready.runWithin_broken_off_iff tests (Bound.past_tests b) later ran live₁,
        ready.runWithin_broken_off_iff tests Bound.unbounded_tests (by simp) ran live₁⟩
    · obtain ⟨out, step, counts, waits, fails⟩ := ready.step_cases
      refine ⟨out, step, fun succeeds onward inside => ?_, waits, fails⟩
      have count := counts succeeds onward inside
      refine ⟨count, fun small => ?_⟩
      rw [count]
      exact toInt_succ small

/-- A loop that copies its input, stopped at its output instruction by an output queue that is full:
run up to there first and then to the end, and in steps. -/
theorem runs_are_steps_copy : ∃ start m answers out₁ out,
    create [(.cells, 1), (.input, 3), (.output, 1)] = .ok start ∧
    start.respond [.prepare [44, 91, 46, 44, 93], .call (.write [97, 98])] = some (m, answers) ∧
    m.prepared = true ∧ m.state ≠ .halted ∧ m.runUpTo 9 2 = some out₁ ∧
    out₁.machine.state ≠ .halted ∧ m.run 9 = some out ∧ out.error ≠ none ∧
    (∃ turns, m.stepUntil (fun _ => false) turns = some out) ∧
    ∃ fuel, out₁.machine.run fuel = some out := by
  obtain ⟨start, created, m, answers, done, prepared, live, out₁, ran₁, live₁, out, ran, failed⟩ :
      ∃ start, create [(.cells, 1), (.input, 3), (.output, 1)] = .ok start ∧ ∃ m answers,
        start.respond [.prepare [44, 91, 46, 44, 93], .call (.write [97, 98])] = some (m, answers) ∧
        m.prepared = true ∧ m.state ≠ .halted ∧ ∃ out₁, m.runUpTo 9 2 = some out₁ ∧
        out₁.machine.state ≠ .halted ∧ ∃ out, m.run 9 = some out ∧ out.error ≠ none :=
    ⟨_, rfl, _, _, rfl, rfl, RunState.noConfusion, _, rfl, RunState.noConfusion, _, rfl,
      Option.some_ne_none _⟩
  have led : start.Leads (fun _ => True) m := Leads.refl.respond (fun _ _ => trivial) done
  obtain ⟨_, works⟩ := runs_are_steps ⟨_, start, created, led⟩
  obtain ⟨steps, _, resumes, _⟩ := works prepared live
  exact ⟨start, m, answers, out₁, out, created, done, prepared, live, ran₁, live₁, ran, failed,
    (steps out).mp ⟨9, ran⟩, ((resumes 2 2 9 out₁ (Int.le_refl 2) ran₁ live₁ out).2).mpr ⟨9, ran⟩⟩

end Machine

end TapeMachine
