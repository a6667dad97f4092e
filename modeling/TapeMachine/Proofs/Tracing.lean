import TapeMachine.Proofs.Stepping
import TapeMachine.Proofs.Turns
import TapeMachine.Proofs.Writing
/-!
# Feeding with a trace

With a trace the machine of a feed is stepped, and a line is written before each step; without one it
is run. Both drivers stop at the same instruction for the same reason, so a turn does the same with and
without a trace but for the journal, and so does a whole feed, whatever its source and its sink do.
-/

set_option autoImplicit false
set_option relaxedAutoImplicit false

namespace TapeMachine

namespace Machine

variable {m : Machine} {fuel turns : Nat} {out : Outcome}

private theorem run_and_stepUntil_of_idle (idle : m.prepared = false ∨ m.state = .halted)
    (fuel turns : Nat) :
    ∃ e : RunError, m.run fuel = some ⟨m, some e⟩ ∧
      m.stepUntil (fun _ => false) (turns + 1) = some ⟨m, some e⟩ := by
  obtain ⟨e, _, refuses⟩ := runWithin_of_idle idle
  have step : m.step = some ⟨m, some e⟩ := refuses (.after 1) 2
  refine ⟨e, refuses .unbounded fuel, ?_⟩
  simp [stepUntil, step, Outcome.isLast]

theorem idle_or_live (m : Machine) :
    (m.prepared = false ∨ m.state = .halted) ∨ m.prepared = true ∧ m.state ≠ .halted := by
  cases m.prepared <;> cases m.state <;> simp

private theorem Consistent.stepUntil_of_run (consistent : m.Consistent)
    (ran : m.run fuel = some out) :
    m.stepUntil (fun _ => false) (fuel + 1) = some out := by
  rcases m.idle_or_live with idle | ⟨prepared, live⟩
  · obtain ⟨e, refused, stepped⟩ := run_and_stepUntil_of_idle idle fuel fuel
    rw [refused] at ran
    rw [stepped]
    exact ran
  · have longer := runWithin_mono ran (Nat.le_succ fuel)
    rw [runWithin_of_live _ _ prepared live, Option.map_eq_some_iff] at longer
    obtain ⟨stop, longer, rfl⟩ := longer
    exact (consistent.ready prepared live).stepUntil_of_exec Bound.unbounded_tests longer

private theorem Consistent.run_of_stepUntil (consistent : m.Consistent)
    (stepped : m.stepUntil (fun _ => false) turns = some out) : m.run (turns + 1) = some out := by
  rcases m.idle_or_live with idle | ⟨prepared, live⟩
  · cases turns with
    | zero => simp [stepUntil] at stepped
    | succ turns =>
        obtain ⟨e, refused, same⟩ := run_and_stepUntil_of_idle idle (turns + 1 + 1) turns
        rw [same] at stepped
        rw [refused]
        exact stepped
  · have ready := consistent.ready prepared live
    obtain ⟨stop, ran, rfl⟩ :=
      @Ready.exec_of_stepUntil m .unbounded _ turns 0 out ready Bound.unbounded_tests stepped
    rw [run, runWithin_of_live _ _ prepared live, ran]
    rfl

end Machine

namespace Feed

/-- A journal that goes on accepting everything and has the same log as another one. -/
structure Journal.Logs (j j' : Journal) : Prop where
  unlimited : j.room = none
  records : ∀ level, j.records level = j'.records level

private theorem Journal.Logs.log {j j' : Journal} (logs : j.Logs j') (record : Log.Record) :
    (j.log record).Logs (j'.log record) := by
  refine ⟨logs.unlimited, fun level => ?_⟩
  have same := logs.records level
  unfold Journal.records at same
  simp only [Journal.records, Journal.log, List.reverse_cons, List.filterMap_append, same]

theorem Journal.trace_unlimited {j : Journal} (unlimited : j.room = none)
    (pieces : List (List UInt8)) :
    j.trace pieces = ({ j with notes := .traced pieces.flatten :: j.notes }, none) := by
  obtain ⟨notes, room, fault⟩ := j
  simp only at unlimited
  subst unlimited
  obtain ⟨accepted, written, done⟩ := FailStop.writeAll_unlimited #[] fault pieces
  have text : accepted.toList = pieces.flatten := by simpa using written
  simp only [Journal.trace, FailStop.ofSink, done, text]

private theorem Journal.Logs.traced {j j' : Journal} (logs : j.Logs j') (text : List UInt8) :
    ({ j with notes := .traced text :: j.notes } : Journal).Logs j' := by
  refine ⟨logs.unlimited, fun level => ?_⟩
  have same := logs.records level
  unfold Journal.records at same
  simp only [Journal.records, List.reverse_cons, List.filterMap_append, same, List.filterMap_cons,
    List.filterMap_nil, List.append_nil]

theorem runTraced_eq {j j' : Journal} (logs : j.Logs j') (fuel : Nat) (m : Machine) :
    ∃ j₁ : Journal, j₁.Logs j' ∧ runTraced fuel m j =
      (m.stepUntil (fun _ => false) fuel).map fun out => ⟨out.machine, j₁, out.error.map .run⟩ := by
  induction fuel generalizing m j with
  | zero => exact ⟨j, logs, rfl⟩
  | succ fuel ih =>
      obtain ⟨j₁, written, logs₁⟩ : ∃ j₁ : Journal,
          (if (traceLine m).isEmpty then (j, none) else j.trace (traceLine m)) = (j₁, none) ∧
            j₁.Logs j' := by
        split
        · exact ⟨j, rfl, logs⟩
        · exact ⟨_, Journal.trace_unlimited logs.unlimited (traceLine m), logs.traced _⟩
      simp only [runTraced, written, Machine.stepUntil, Bool.and_false, Bool.false_eq_true, if_false]
      cases m.step with
      | none => exact ⟨j₁, logs₁, rfl⟩
      | some out =>
          obtain ⟨m₁, error⟩ := out
          cases error with
          | some e => exact ⟨j₁, logs₁, by simp [Outcome.isLast]⟩
          | none =>
              cases state : m₁.state with
              | running =>
                  obtain ⟨j₂, logs₂, rest⟩ := ih logs₁ m₁
                  refine ⟨j₂, logs₂, ?_⟩
                  simp [Outcome.isLast, Machine.isWaiting, state, rest]
              | waiting => exact ⟨j₁, logs₁, by simp [Outcome.isLast, Machine.isWaiting, state]⟩
              | halted => exact ⟨j₁, logs₁, by simp [Outcome.isLast, Machine.isWaiting, state]⟩

@[simp]
theorem capacity_flush (queue : Buffer) (sink : Sink) :
    (flush queue sink).1.capacity = queue.capacity := by
  fun_induction flush queue sink with
  | case1 => exact Buffer.capacity_take _ _
  | case2 queue sink _ _ _ _ _ ih => rw [ih, Buffer.capacity_take]
  | case3 => rfl

def State.proceed (f : Feeder) (s : State) (ran : Ran) : Turn :=
  match flush ran.machine.output s.output with
  | (queue, sink, fault) =>
    let after : State :=
      ⟨{ ran.machine with output := queue }, s.pending, s.input, sink, ran.journal⟩
    match fault, ran.halt with
    | some fault, _ => .done after (.failed (.output fault))
    | none, some (.trace fault) => .done after (.failed (.trace fault))
    | none, some (.run error) => conclude f after (some error)
    | none, none => conclude f after none

theorem turn_eq_proceed (f : Feeder) (fuel : Nat) (s : State) :
    turn f fuel s = (runMachine f.tracing fuel s.machine s.journal).map (s.proceed f) := by
  obtain ⟨m, pending, input, output, journal⟩ := s
  simp only [turn]
  cases runMachine f.tracing fuel m journal with
  | none => rfl
  | some ran =>
      obtain ⟨m', journal', halt⟩ := ran
      simp only [Option.map_some, State.proceed]
      generalize flush m'.output output = flushed
      obtain ⟨queue, sink, fault⟩ := flushed
      cases fault with
      | some fault => rfl
      | none =>
          rcases halt with _ | ⟨_ | _ | _⟩ | _
          · simp only [conclude]
            split
            · split <;> rfl
            · rfl
          all_goals rfl

/-- What is left of a turn after its run: the output does not all fit, a line of the trace did not, or
the turn is concluded by the error of the run. -/
inductive Proceeds (f : Feeder) (s : State) (ran : Ran) (t : Turn) : Prop
  | failed {e : State} {error : Error}
      (cause : (∃ fault, error = .output fault) ∨ ∃ fault, error = .trace fault)
      (stops : t = .done e (.failed error)) : Proceeds f s ran t
  | concluded {queue : Buffer} {sink : Sink} {error : Option RunError}
      (flushed : flush ran.machine.output s.output = (queue, sink, none))
      (halt : ran.halt = error.map .run)
      (goes : t = conclude f
        ⟨{ ran.machine with output := queue }, s.pending, s.input, sink, ran.journal⟩ error) :
      Proceeds f s ran t

theorem proceeds (f : Feeder) (s : State) (ran : Ran) : Proceeds f s ran (s.proceed f ran) := by
  obtain ⟨m, journal, halt⟩ := ran
  simp only [State.proceed]
  generalize flushed : flush m.output s.output = out
  obtain ⟨queue, sink, fault⟩ := out
  cases fault with
  | some fault => exact .failed (Or.inl ⟨fault, rfl⟩) rfl
  | none =>
      rcases halt with _ | error | fault
      · have fine : (none : Option Halt) = (none : Option RunError).map .run := rfl
        exact .concluded flushed fine rfl
      · have failed : some (Halt.run error) = (some error).map .run := rfl
        exact .concluded flushed failed rfl
      · exact .failed (Or.inr ⟨fault, rfl⟩) rfl

/-- A feed with a trace that is where a feed without one is. -/
structure State.Traces (s s' : State) : Prop where
  machine : s.machine = s'.machine
  pending : s.pending = s'.pending
  input : s.input = s'.input
  output : s.output = s'.output
  logs : s.journal.Logs s'.journal
  consistent : s.machine.Consistent

section Traces

variable {f : Feeder} {s s' : State}

def Feeder.withTrace (f : Feeder) (tracing : Bool) : Feeder := { f with tracing := tracing }

private theorem Feeder.scan_withTrace (f : Feeder) (tracing : Bool) :
    (f.withTrace tracing).scan = f.scan := rfl

private theorem Feeder.frame_withTrace (f : Feeder) (tracing : Bool) :
    (f.withTrace tracing).frame = f.frame := rfl

theorem Turn.Accepts.consistent {t : Turn} (accepts : t.Accepts s)
    (consistent : s.machine.Consistent) : t.state.machine.Consistent := by
  obtain ⟨accepted, does⟩ := accepts.machine
  exact consistent.called does

private theorem State.Traces.log (traces : s.Traces s') (message : String) :
    ({ s with journal := s.journal.log (event s.machine message) } : State).Traces
      { s' with journal := s'.journal.log (event s'.machine message) } := by
  have logs := traces.logs.log (event s.machine message)
  refine ⟨traces.machine, traces.pending, traces.input, traces.output, ?_, traces.consistent⟩
  rw [← traces.machine]
  exact logs

private theorem State.Traces.give (traces : s.Traces s') : Turn.Rel State.Traces (give s)
    (give s') := by
  have consistent := (give_accepts s).consistent traces.consistent
  obtain ⟨m, pending, input, output, journal⟩ := s
  obtain ⟨m', pending', input', output', journal'⟩ := s'
  obtain ⟨rfl, rfl, rfl, rfl, logs, _⟩ := traces
  exact .again ⟨rfl, rfl, rfl, rfl, logs, consistent⟩

private theorem State.Traces.fetch (traces : s.Traces s') (f : Feeder) (tracing tracing' : Bool) :
    Turn.Rel State.Traces (fetch (f.withTrace tracing) s) (fetch (f.withTrace tracing') s') := by
  have waiting := traces.log "waiting for input"
  have ended := waiting.log "end of input"
  obtain ⟨m, pending, input, output, journal⟩ := s
  obtain ⟨m', pending', input', output', journal'⟩ := s'
  obtain ⟨rfl, rfl, rfl, rfl, _, consistent⟩ := traces
  simp only [Feed.fetch, Feeder.scan_withTrace, Feeder.frame_withTrace]
  split
  · exact .done waiting _
  · exact .done waiting _
  · split
    · exact .done waiting _
    · exact .done ended _
  · split
    · refine .done ?_ _
      exact ⟨rfl, rfl, rfl, rfl, ended.logs, consistent⟩
    · apply State.Traces.give
      exact ⟨rfl, rfl, rfl, rfl, waiting.logs, consistent⟩

private theorem State.Traces.conclude (traces : s.Traces s') (f : Feeder) (tracing tracing' : Bool)
    (error : Option RunError) :
    Turn.Rel State.Traces (conclude (f.withTrace tracing) s error)
      (conclude (f.withTrace tracing') s' error) := by
  have waits : s.machine.isWaiting = s'.machine.isWaiting := by rw [traces.machine]
  have spent : s.pending.isEmpty = s'.pending.isEmpty := by rw [traces.pending]
  rcases error with _ | _ | _ | _
  · simp only [Feed.conclude, waits, spent]
    split
    · split
      · exact traces.fetch f tracing tracing'
      · exact traces.give
    · exact .done (traces.log "halted") _
  · exact .done traces _
  · exact .done traces _
  · exact .again (traces.log "output buffer full")

private theorem State.Traces.proceed (traces : s.Traces s') (f : Feeder) (tracing tracing' : Bool)
    {m : Machine} {j j' : Journal} (error : Option RunError) (logs : j.Logs j')
    (consistent : m.Consistent) :
    Turn.Rel State.Traces (s.proceed (f.withTrace tracing) ⟨m, j, error.map .run⟩)
      (s'.proceed (f.withTrace tracing') ⟨m, j', error.map .run⟩) := by
  obtain ⟨m₀, pending, input, output, journal⟩ := s
  obtain ⟨m₁, pending', input', output', journal'⟩ := s'
  obtain ⟨_, rfl, rfl, rfl, _, _⟩ := traces
  have capacity := capacity_flush m.output output
  simp only [State.proceed]
  generalize flush m.output output = flushed at capacity ⊢
  obtain ⟨queue, sink, fault⟩ := flushed
  have room : 0 < queue.capacity := by
    rw [capacity]
    exact consistent.outputRoom
  have after : State.Traces ⟨{ m with output := queue }, pending, input, sink, j⟩
      ⟨{ m with output := queue }, pending, input, sink, j'⟩ :=
    ⟨rfl, rfl, rfl, rfl, logs, consistent.with_stores m.tape consistent.inputRoom room⟩
  cases fault with
  | some fault => exact .done after _
  | none =>
      cases error with
      | none => exact after.conclude f tracing tracing' none
      | some error => exact after.conclude f tracing tracing' (some error)

theorem State.Traces.turn_untraced (traces : s.Traces s') {fuel : Nat} {t : Turn}
    (turned : turn (f.withTrace true) fuel s = some t) :
    ∃ t', turn (f.withTrace false) (fuel + 1) s' = some t' ∧ Turn.Rel State.Traces t t' := by
  obtain ⟨j₁, logs, driven⟩ := runTraced_eq traces.logs fuel s.machine
  rw [turn_eq_proceed, Option.map_eq_some_iff] at turned
  obtain ⟨ran, driven', rfl⟩ := turned
  rw [show runMachine (f.withTrace true).tracing fuel s.machine s.journal =
    runTraced fuel s.machine s.journal from rfl, driven, Option.map_eq_some_iff] at driven'
  obtain ⟨out, stepped, rfl⟩ := driven'
  have ran := traces.consistent.run_of_stepUntil stepped
  have consistent := traces.consistent.runWithin ran
  rw [traces.machine] at ran
  refine ⟨_, ?_, traces.proceed f true false out.error logs consistent⟩
  simp only [turn_eq_proceed, runMachine, Feeder.withTrace, Bool.false_eq_true, if_false, ran,
    Option.map_some]

theorem State.Traces.turn_traced (traces : s.Traces s') {fuel : Nat} {t' : Turn}
    (turned : turn (f.withTrace false) fuel s' = some t') :
    ∃ t, turn (f.withTrace true) (fuel + 1) s = some t ∧ Turn.Rel State.Traces t t' := by
  obtain ⟨j₁, logs, driven⟩ := runTraced_eq traces.logs (fuel + 1) s.machine
  rw [turn_eq_proceed] at turned
  simp only [runMachine, Feeder.withTrace, Bool.false_eq_true, if_false, ← traces.machine] at turned
  cases ran : s.machine.run fuel with
  | none => simp [ran] at turned
  | some out =>
      have consistent := traces.consistent.runWithin ran
      rw [traces.consistent.stepUntil_of_run ran] at driven
      simp only [ran, Option.map_some, Option.some.injEq] at turned
      rw [← turned]
      refine ⟨_, ?_, traces.proceed f true false out.error logs consistent⟩
      simp only [turn_eq_proceed, runMachine, Feeder.withTrace, if_true, driven, Option.map_some]

theorem State.Traces.feed_untraced (traces : s.Traces s') {fuel : Nat} {e : State} {ending : Ending}
    (fed : feed (f.withTrace true) fuel s = some (e, ending)) :
    ∃ e', feed (f.withTrace false) (fuel + 1) s' = some (e', ending) ∧ e.Traces e' := by
  refine feedWithin_of_rel (fun s s' t traces turned => ?_) traces fed (Nat.le_succ fuel)
  exact traces.turn_untraced turned

theorem State.Traces.feed_traced (traces : s.Traces s') {fuel : Nat} {e' : State} {ending : Ending}
    (fed : feed (f.withTrace false) fuel s' = some (e', ending)) :
    ∃ e, feed (f.withTrace true) (fuel + 1) s = some (e, ending) ∧ e.Traces e' := by
  have each (s' s : State) (t' : Turn) (traces : s.Traces s')
      (turned : turn (f.withTrace false) fuel s' = some t') :
      ∃ t, turn (f.withTrace true) (fuel + 1) s = some t ∧
        Turn.Rel (fun s' s => State.Traces s s') t' t := by
    obtain ⟨t, turned', rel⟩ := traces.turn_traced turned
    exact ⟨t, turned', rel.flip fun _ _ same => same⟩
  exact feedWithin_of_rel each traces fed (Nat.le_succ fuel)

end Traces

/-- Whatever its settings, its source and its sink, a feed of a reachable machine returns with a trace
if and only if it returns without one, and then it has ended in the same way, with the same machine,
the same bytes read and written, and the same log. -/
theorem tracing_changes_nothing {m : Machine} (reachable : m.Reachable) (f : Feeder) (input : Source)
    (sink : Sink) (journal : Journal) (unlimited : journal.room = none) :
    ((∃ fuel e, feed { f with tracing := true } fuel (.start m input sink journal) = some e) ↔
      ∃ fuel e, feed { f with tracing := false } fuel (.start m input sink journal) = some e) ∧
    ∀ fuel fuel' s s' ending ending',
      feed { f with tracing := true } fuel (.start m input sink journal) = some (s, ending) →
      feed { f with tracing := false } fuel' (.start m input sink journal) = some (s', ending') →
      ending = ending' ∧ s.output = s'.output ∧ s.input = s'.input ∧ s.pending = s'.pending ∧
        s.machine = s'.machine ∧ ∀ level, s.journal.records level = s'.journal.records level := by
  have start : (State.start m input sink journal).Traces (.start m input sink journal) :=
    ⟨rfl, rfl, rfl, rfl, ⟨unlimited, fun _ => rfl⟩, reachable.consistent⟩
  refine ⟨⟨?_, ?_⟩, ?_⟩
  · rintro ⟨fuel, ⟨s, ending⟩, fed⟩
    obtain ⟨s', fed', _⟩ := start.feed_untraced fed
    exact ⟨fuel + 1, _, fed'⟩
  · rintro ⟨fuel, ⟨s', ending⟩, fed⟩
    obtain ⟨s, fed', _⟩ := start.feed_traced fed
    exact ⟨fuel + 1, _, fed'⟩
  · intro fuel fuel' s s' ending ending' traced untraced
    obtain ⟨s₁, same, last⟩ := start.feed_untraced traced
    have unique := feed_unique same untraced
    simp only [Prod.mk.injEq] at unique
    obtain ⟨rfl, rfl⟩ := unique
    exact ⟨rfl, last.output, last.input, last.pending, last.machine, last.logs.records⟩

/-- A split into pairs of bytes that refuses what is left of an odd number of them: with and without a
trace, through queues of one byte. -/
theorem tracing_changes_nothing_refused :
    let odd : Fault := .device "odd"
    let f : Feeder :=
      { split := fun _ input =>
          if input.length < 2 then .failed odd else .token (input.take 2) (input.drop 2)
        frame := .raw }
    ∃ m s s' ending,
      (Request.prepare [44, 91, 46, 44, 93]).perform
        (Machine.ofSizes ⟨1, 1, 1, by decide, by decide, by decide⟩) = some (m, .done) ∧
      feed { f with tracing := true } 20
        (.start m (.ofBytes [97, 10, 98]) .unlimited .unlimited) = some (s, ending) ∧
      feed { f with tracing := false } 20
        (.start m (.ofBytes [97, 10, 98]) .unlimited .unlimited) = some (s', ending) ∧
      ending = .failed (.input odd) ∧ s.output.accepted.toList = [97, 10] ∧
      s.machine = s'.machine := by
  intro odd f
  let start := Machine.ofSizes ⟨1, 1, 1, by decide, by decide, by decide⟩
  let m := start.loaded [44, 91, 46, 44, 93] #[none, some 4, none, none, some 1]
  have prepared : (Request.prepare [44, 91, 46, 44, 93]).perform start = some (m, .done) := rfl
  have reachable : m.Reachable :=
    ⟨[(.cells, 1), (.input, 1), (.output, 1)], start, rfl, .request .refl trivial prepared⟩
  obtain ⟨_, agree⟩ :=
    tracing_changes_nothing reachable f (.ofBytes [97, 10, 98]) .unlimited .unlimited rfl
  obtain ⟨⟨s, ending⟩, traced, view⟩ := Option.map_eq_some_iff.mp
    (show (feed { f with tracing := true } 20
        (.start m (.ofBytes [97, 10, 98]) .unlimited .unlimited)).map
      (fun e => (e.2, e.1.output.accepted.toList)) =
        some (.failed (.input odd), [97, 10]) by decide +kernel)
  obtain ⟨⟨s', ending'⟩, untraced, _⟩ := Option.map_eq_some_iff.mp
    (show (feed { f with tracing := false } 20
        (.start m (.ofBytes [97, 10, 98]) .unlimited .unlimited)).map
      Prod.snd = some (.failed (.input odd)) by decide +kernel)
  obtain ⟨rfl, _, _, _, machine, _⟩ := agree 20 20 s s' ending ending' traced untraced
  simp only [Prod.mk.injEq] at view
  exact ⟨m, s, s', ending, prepared, traced, untraced, view.1, view.2, machine⟩

end Feed

end TapeMachine
