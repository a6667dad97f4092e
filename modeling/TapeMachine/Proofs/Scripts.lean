import TapeMachine.Proofs.Stepping
/-!
# Scripts

A run takes as much fuel as it needs, and any amount that suffices gives the same outcome after the
same number of instructions. So a run without bound is a relation between a machine, that number and
the stop, and a script of calls is a relation between a machine, its answers, the number of
instructions executed for all of them together, and the machine after them.
-/

set_option autoImplicit false
set_option relaxedAutoImplicit false

namespace TapeMachine

namespace Machine

variable {m m₁ : Machine} {n n' : Nat} {stop stop' : Stop}

/-- A run without bound: a number of instructions and the stop they lead to. -/
inductive Finishes : Nat → Machine → Stop → Prop
  | stop {m : Machine} {stop : Stop} (stops : StopsAs .unbounded 0 m stop) : Finishes 0 m stop
  | step {n : Nat} {m m₁ : Machine} {stop : Stop} (first : m.Executes m₁)
      (rest : Finishes n m₁ stop) : Finishes (n + 1) m stop

theorem Runs.finishes (runs : Runs n m m₁) (rest : Finishes n' m₁ stop) :
    Finishes (n + n') m stop := by
  induction runs with
  | refl m =>
      rw [Nat.zero_add]
      exact rest
  | step first _ ih =>
      rw [Nat.succ_add]
      exact .step first (ih rest)

theorem Executes.unique {m₂ : Machine} (first : m.Executes m₁) (second : m.Executes m₂) : m₁ = m₂ := by
  obtain ⟨c, fetched, done⟩ := first
  obtain ⟨c', fetched', done'⟩ := second
  rw [fetched, Option.some.injEq] at fetched'
  rw [fetched', done', Attempt.executed.injEq] at done
  exact done.symm

private theorem StopsAs.unique (stops : StopsAs .unbounded 0 m stop)
    (stops' : StopsAs .unbounded 0 m stop') :
    stop = stop' := by
  have ran : exec .unbounded 1 0 m = some stop := exec_of_stopsAs 0 stops fun _ => rfl
  have ran' : exec .unbounded 1 0 m = some stop' := exec_of_stopsAs 0 stops' fun _ => rfl
  rw [ran, Option.some.injEq] at ran'
  exact ran'

theorem StopsAs.not_executes (stops : StopsAs .unbounded 0 m stop) : ¬ m.Executes m₁ := by
  intro first
  have ran : exec .unbounded 1 0 m = some stop := exec_of_stopsAs 0 stops fun _ => rfl
  rw [exec_of_executes 0 first rfl] at ran
  cases ran

theorem Finishes.unique (finishes : Finishes n m stop) (finishes' : Finishes n' m stop') :
    n = n' ∧ stop = stop' := by
  induction finishes generalizing n' with
  | stop stops =>
      cases finishes' with
      | stop stops' => exact ⟨rfl, stops.unique stops'⟩
      | step first _ => exact absurd first stops.not_executes
  | step first _ ih =>
      cases finishes' with
      | stop stops' => exact absurd first stops'.not_executes
      | step first' rest' =>
          rw [← first.unique first'] at rest'
          obtain ⟨count, stop⟩ := ih rest'
          exact ⟨congrArg (· + 1) count, stop⟩

private theorem Finishes.exec (finishes : Finishes n m stop) (executed : Nat) :
    exec .unbounded (n + 1) executed m = some stop := by
  induction finishes generalizing executed with
  | stop stops => exact exec_of_stopsAs 0 stops fun _ => rfl
  | step first _ ih =>
      rw [exec_of_executes _ first rfl]
      exact ih (executed + 1)

theorem Finishes.run (finishes : Finishes n m stop) (prepared : m.prepared = true)
    (live : m.state ≠ .halted) : m.run (n + 1) = some stop.outcome := by
  rw [Machine.run, runWithin_of_live _ _ prepared live, finishes.exec 0]
  rfl

theorem finishes_of_run {fuel : Nat} {out : Outcome} (prepared : m.prepared = true)
    (live : m.state ≠ .halted) (ran : m.run fuel = some out) :
    ∃ stop, Finishes (m.executed .unbounded fuel) m stop ∧ out = stop.outcome := by
  rw [run, runWithin_of_live _ _ prepared live, Option.map_eq_some_iff] at ran
  obtain ⟨stop, ran, rfl⟩ := ran
  obtain ⟨m', runs, stops⟩ := exec_eq_some ran
  have stops' : StopsAs .unbounded 0 m' stop := by
    cases stops with
    | halted ended => exact .halted ended
    | bounded inside reached => cases reached
    | starved wants empty => exact .starved wants empty
    | refused wants full => exact .refused wants full
  rw [executed, if_pos ⟨prepared, live⟩]
  exact ⟨stop, runs.finishes (.stop stops'), rfl⟩

end Machine

/-- The calls that feed a program, run it as far as it goes and take its output. A run is given as
much fuel as it needs, so that the demand does not speak of it. -/
inductive Demand where
  | appendInput (bytes : List UInt8)
  | write (bytes : List UInt8)
  | run
  | nextOutput
  | drainOutput
  deriving DecidableEq, Repr

def Demand.call (fuel : Nat) : Demand → Call
  | .appendInput bytes => .appendInput bytes
  | .write bytes => .write bytes
  | .run => .run fuel
  | .nextOutput => .nextOutput
  | .drainOutput => .drainOutput

theorem Demand.call_of_quiet {d : Demand} (quiet : d ≠ .run) (fuel fuel' : Nat) :
    d.call fuel = d.call fuel' ∧ ∀ m, (d.call fuel).executes m = 0 := by
  cases d with
  | run => exact absurd rfl quiet
  | appendInput | write | nextOutput | drainOutput => exact ⟨rfl, fun _ => rfl⟩

namespace Machine

theorem exists_perform_of_quiet {d : Demand} (m : Machine) (quiet : d ≠ .run) (fuel : Nat) :
    ∃ reply, (d.call fuel).perform m = some reply := by
  cases d with
  | run => exact absurd rfl quiet
  | appendInput bytes =>
      simp only [Demand.call, Call.perform]
      split <;> exact ⟨_, rfl⟩
  | nextOutput =>
      simp only [Demand.call, Call.perform]
      split <;> exact ⟨_, rfl⟩
  | write bytes | drainOutput => exact ⟨_, rfl⟩

/-- The machine answers each demand of a script, executes a number of instructions for all of them
together, and ends up as another machine. -/
inductive Plays : Machine → List Demand → List Answer → Nat → Machine → Prop
  | nil (m : Machine) : Plays m [] [] 0 m
  | cons {m m₁ m₂ : Machine} {d : Demand} {script : List Demand} {answer : Answer}
      {answers : List Answer} {n : Nat} (fuel : Nat)
      (done : (d.call fuel).perform m = some (m₁, answer)) (rest : Plays m₁ script answers n m₂) :
      Plays m (d :: script) (answer :: answers) ((d.call fuel).executes m + n) m₂

variable {m m₁ : Machine} {script : List Demand} {answers : List Answer} {n : Nat}

theorem Plays.count (plays : m.Plays script answers n m₁) : m₁.count = m.count + Int64.ofNat n := by
  induction plays with
  | nil m => simp
  | cons fuel done _ ih => rw [ih, (Call.does _ done).count, Int64.ofNat_add, Int64.add_assoc]

theorem Plays.sameFrame (plays : m.Plays script answers n m₁) : m.SameFrame m₁ := by
  induction plays with
  | nil m => exact .refl m
  | cons fuel done _ ih => exact (Call.does _ done).sameFrame.trans ih

end Machine

end TapeMachine
