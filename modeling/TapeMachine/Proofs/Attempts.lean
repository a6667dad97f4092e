import TapeMachine.Proofs.Tracing
import TapeMachine.Proofs.Visits
/-!
# What a trace lists

The driver of a traced feed writes the line of an instruction before it tries to execute it. An
instruction that has to wait for input or is refused by a full queue is tried again later, and then its
line is written again. So a trace lists attempts: the lines of the executed instructions are the lines
of a run of the ideal machine, in order, and between them stand the lines of the attempts that were
held up.
-/

set_option autoImplicit false
set_option relaxedAutoImplicit false

namespace TapeMachine

namespace Feed

/-! ## The driver -/

private theorem Journal.traceText_traced (j : Journal) (text : List UInt8) :
    ({ j with notes := .traced text :: j.notes } : Journal).traceText = j.traceText ++ text := by
  simp [Journal.traceText]

private theorem flatten_traceLine {k : Code} {m : Machine} (holds : m.Holds k) {c : Config}
    (pc : c.pc = m.pc) (tape : c.tape = m.tape) :
    ((traceLine m).isEmpty = true ↔ k.listed c = []) ∧
      (traceLine m).flatten = (k.listed c).flatten := by
  have fetched : k.program[c.pc]? = m.program[m.pc]? := by
    rw [pc]
    exact holds.fetch
  unfold traceLine Code.listed
  rw [fetched]
  cases m.program[m.pc]? with
  | none => simp
  | some byte =>
      by_cases known : Instruction.isInstruction byte
      · simp [known, Code.line, pc, tape, holds.jumps]
      · simp [known]

/-- What a traced run has done when it stops: instructions have been executed up to `last`, every
attempt has been listed, and all of them have been executed if the program has come to its end. -/
structure Drives (k : Code) (m : Machine) (c : Config) (before : List UInt8) (j : Journal) (n : Nat)
    (last : Machine) (stop : Stop) (visits : List Visit) (d : Config) (ran : Ran) : Prop where
  runs : Machine.Runs n m last
  stops : Machine.StopsAs .unbounded 0 last stop
  machine : ran.machine = stop.outcome.machine
  halt : ran.halt = stop.outcome.error.map .run
  visited : k.Visits n c visits d
  place : d.within before [] = last.config
  text : ran.journal.traceText = j.traceText ++ Visit.text visits
  unlimited : ran.journal.room = none
  complete : (∀ visit ∈ visits, visit.executed = true) ↔ ∃ m', stop = .halted m'
  untraced : ∀ executed, ∃ fuel, Machine.exec .unbounded fuel executed m = some stop

private theorem StopsAs.view {m : Machine} {stop : Stop}
    (stops : Machine.StopsAs .unbounded 0 m stop) :
    stop.outcome.machine.config = m.config ∧ stop.outcome.machine.count = m.count ∧
      m.SameFrame stop.outcome.machine := by
  cases stops <;> exact ⟨rfl, rfl, rfl, rfl, rfl, rfl, rfl, rfl⟩

section Drive

variable {k : Code} {m : Machine} {c : Config} {before : List UInt8} {j : Journal} {ran : Ran}

private theorem Drives.of_stopsAs {stop : Stop} (holds : m.Holds k)
    (place : c.within before [] = m.config) (unlimited : ran.journal.room = none)
    (text : ran.journal.traceText = j.traceText ++ (k.listed c).flatten)
    (stops : Machine.StopsAs .unbounded 0 m stop) (machine : ran.machine = stop.outcome.machine)
    (halt : ran.halt = stop.outcome.error.map .run) :
    ∃ visits, Drives k m c before j 0 m stop visits c ran := by
  have pc : c.pc = m.pc := congrArg Config.pc place
  have fetch : k.program[c.pc]? = m.program[m.pc]? := by
    rw [pc]
    exact holds.fetch
  have untraced (executed : Nat) : ∃ fuel, Machine.exec .unbounded fuel executed m = some stop :=
    ⟨1, Machine.exec_of_stopsAs 0 stops fun _ => rfl⟩
  -- An instruction that is held up is listed, and has not been executed.
  have held {byte : UInt8} (fetched : m.program[m.pc]? = some byte)
      (waits : byte = Instruction.input.toByte ∨ byte = Instruction.output.toByte)
      (onward : ∀ m', stop ≠ .halted m') :
      ∃ visits, Drives k m c before j 0 m stop visits c ran := by
    have known : Instruction.isInstruction byte = true := by
      rcases waits with rfl | rfl <;> rfl
    have listed : k.listed c = [k.line c byte] := by
      rw [Code.listed, fetch, fetched]
      exact if_pos known
    refine ⟨[⟨k.line c byte, false⟩], ⟨.refl m, stops, machine, halt,
      .held (fetch.trans fetched) waits (.stop c), place, ?_, unlimited, ?_, untraced⟩⟩
    · rw [text, listed]
      rfl
    · constructor
      · intro all
        exact absurd (all _ List.mem_cons_self) Bool.false_ne_true
      · rintro ⟨m', halted⟩
        exact absurd halted (onward m')
  cases stops with
  | halted ended =>
      have nothing : k.listed c = [] := by
        rw [Code.listed, fetch, Array.getElem?_eq_none ended]
      refine ⟨[], ⟨.refl m, .halted ended, machine, halt, .stop c, place, ?_, unlimited, ?_, untraced⟩⟩
      · rw [text, nothing]
        rfl
      · exact ⟨fun _ => ⟨_, rfl⟩, fun _ _ member => (List.not_mem_nil member).elim⟩
  | bounded inside reached => cases reached
  | starved wants empty => exact held wants (Or.inl rfl) nofun
  | refused wants full => exact held wants (Or.inr rfl) nofun

private theorem Drives.of_executes {m₁ last : Machine} {c₁ d : Config} {j₁ : Journal} {n : Nat}
    {stop : Stop} {visits : List Visit} (first : m.Executes m₁) (step : k.next? c = some c₁)
    (text : j₁.traceText = j.traceText ++ (k.listed c).flatten)
    (later : Drives k m₁ c₁ before j₁ n last stop visits d ran) :
    Drives k m c before j (n + 1) last stop ((k.listed c).map (⟨·, true⟩) ++ visits) d ran where
  runs := .step first later.runs
  stops := later.stops
  machine := later.machine
  halt := later.halt
  visited := .executed step later.visited
  place := later.place
  text := by
    have front : Visit.text ((k.listed c).map (⟨·, true⟩ : List UInt8 → Visit)) =
        (k.listed c).flatten := by
      rw [Visit.text, List.map_map]
      exact congrArg List.flatten (List.map_id _)
    rw [later.text, text, Visit.text_append, front, List.append_assoc]
  unlimited := later.unlimited
  complete := by
    rw [← later.complete, List.forall_mem_append]
    refine and_iff_right ?_
    intro visit member
    obtain ⟨line, -, rfl⟩ := List.mem_map.mp member
    rfl
  untraced executed := by
    obtain ⟨fuel, ran⟩ := later.untraced (executed + 1)
    refine ⟨fuel + 1, ?_⟩
    rw [Machine.exec_of_executes fuel first rfl]
    exact ran

private theorem exists_traced (holds : m.Holds k) (place : c.within before [] = m.config)
    (unlimited : j.room = none) :
    ∃ j₁ : Journal,
      (if (traceLine m).isEmpty then (j, none) else j.trace (traceLine m)) = (j₁, none) ∧
        j₁.room = none ∧ j₁.traceText = j.traceText ++ (k.listed c).flatten := by
  have pc : c.pc = m.pc := congrArg Config.pc place
  have tape : c.tape = m.tape := congrArg Config.tape place
  obtain ⟨nothing, line⟩ := flatten_traceLine holds pc tape
  split
  case isTrue empty =>
    refine ⟨j, rfl, unlimited, ?_⟩
    rw [nothing.mp empty, List.flatten_nil, List.append_nil]
  case isFalse =>
    have traced := Journal.trace_unlimited unlimited (traceLine m)
    refine ⟨_, traced, unlimited, ?_⟩
    rw [Journal.traceText_traced, line]

private theorem drives_of_runTraced {fuel : Nat} (ready : m.Ready) (holds : m.Holds k)
    (place : c.within before [] = m.config) (unlimited : j.room = none)
    (driven : runTraced fuel m j = some ran) :
    ∃ n last stop visits d, Drives k m c before j n last stop visits d ran := by
  induction fuel generalizing m j c with
  | zero => simp [runTraced] at driven
  | succ fuel ih =>
      obtain ⟨j₁, written, unlimited₁, text⟩ := exists_traced holds place unlimited
      simp only [runTraced, written] at driven
      rcases m.executes_or_stopsAs with ⟨m₁, first⟩ | ⟨stop, stops⟩
      · have stepped := first.next? holds
        rw [← place] at stepped
        obtain ⟨c₁, step, place₁⟩ := Code.next?_before stepped
        have holds₁ := holds.of_sameFrame first.sameFrame
        have running := ready.toSound.running_of_executes ready.live first
        rw [Machine.step_of_executes ready.prepared ready.live first] at driven
        by_cases inside : m₁.pc < m₁.program.size
        · simp only [Machine.settle, inside, if_true, running] at driven
          obtain ⟨n, last, stop, visits, d, later⟩ :=
            ih (ready.executes first) holds₁ place₁ unlimited₁ driven
          exact ⟨n + 1, last, stop, _, d, later.of_executes first step text⟩
        · -- The step has seen the end of the program.
          simp only [Machine.settle, inside, if_false, reduceCtorEq, Option.some.injEq] at driven
          have ended : m₁.program.size ≤ m₁.pc := Nat.le_of_not_lt inside
          have nothing₁ : k.listed c₁ = [] := by
            have pc₁ : c₁.pc = m₁.pc := congrArg Config.pc place₁
            rw [Code.listed, pc₁, holds₁.fetch, Array.getElem?_eq_none ended]
          have text₁ : ran.journal.traceText = j₁.traceText ++ (k.listed c₁).flatten := by
            rw [nothing₁, List.flatten_nil, List.append_nil, ← driven]
          have unlimited₂ : ran.journal.room = none := by
            rw [← driven]
            exact unlimited₁
          obtain ⟨visits, later⟩ := Drives.of_stopsAs holds₁ place₁ unlimited₂ text₁
            (.halted ended) (by rw [← driven]; rfl) (by rw [← driven]; rfl)
          exact ⟨_, _, _, _, _, later.of_executes first step text⟩
      · rw [Machine.step_of_stopsAs ready.prepared ready.live stops] at driven
        have same : ran = ⟨stop.outcome.machine, j₁, stop.outcome.error.map .run⟩ := by
          cases stops with
          | halted ended =>
              simp only [Stop.outcome, reduceCtorEq, if_false, Option.some.injEq] at driven
              exact driven.symm
          | bounded inside reached => cases reached
          | starved wants empty =>
              simp only [Stop.outcome, reduceCtorEq, if_false, Option.some.injEq] at driven
              exact driven.symm
          | refused wants full =>
              simp only [Stop.outcome, Option.some.injEq] at driven
              exact driven.symm
        subst same
        obtain ⟨visits, drives⟩ : ∃ visits, Drives k m c before j 0 m stop visits c
            ⟨stop.outcome.machine, j₁, stop.outcome.error.map .run⟩ :=
          Drives.of_stopsAs holds place unlimited₁ text stops rfl rfl
        exact ⟨0, m, stop, visits, c, drives⟩

variable {n : Nat} {last : Machine} {stop : Stop} {visits : List Visit} {d : Config}

private theorem Drives.halted_iff (drives : Drives k m c before j n last stop visits d ran)
    (ready : m.Ready) :
    (∃ m', stop = .halted m') ↔ ∃ fuel m', m.run fuel = some ⟨m', none⟩ ∧ m'.state = .halted := by
  obtain ⟨fuel, executed⟩ := drives.untraced 0
  have live := drives.runs.live ready.live
  have runs : m.run fuel = some stop.outcome := by
    rw [Machine.run, Machine.runWithin_of_live _ _ ready.prepared ready.live, executed]
    rfl
  constructor
  · rintro ⟨m', rfl⟩
    refine ⟨fuel, m', runs, ?_⟩
    cases drives.stops with
    | halted ended => rfl
  · rintro ⟨fuel', m', runs', halted⟩
    have longer := Machine.runWithin_mono runs (Nat.le_max_left fuel fuel')
    have longer' := Machine.runWithin_mono runs' (Nat.le_max_right fuel fuel')
    rw [longer, Option.some.injEq] at longer'
    cases drives.stops with
    | halted ended => exact ⟨_, rfl⟩
    | bounded inside reached => cases reached
    | starved wants empty =>
        cases longer'
        cases halted
    | refused wants full => cases longer'

private theorem Drives.sameFrame (drives : Drives k m c before j n last stop visits d ran) :
    m.SameFrame ran.machine := by
  rw [drives.machine]
  exact drives.runs.sameFrame.trans (StopsAs.view drives.stops).2.2

private theorem Drives.consistent (drives : Drives k m c before j n last stop visits d ran)
    (consistent : m.Consistent) (live : m.state ≠ .halted) : ran.machine.Consistent := by
  rw [drives.machine]
  exact Machine.Consistent.of_stopsAs (consistent.toSound.of_runs live drives.runs)
    (drives.runs.live live) drives.stops

private theorem Drives.state_eq_halted_iff (drives : Drives k m c before j n last stop visits d ran)
    (live : m.state ≠ .halted) :
    ran.machine.state = .halted ↔ ∃ m', stop = .halted m' := by
  rw [drives.machine]
  cases drives.stops with
  | halted ended => exact ⟨fun _ => ⟨_, rfl⟩, fun _ => rfl⟩
  | bounded inside reached => cases reached
  | starved wants empty => exact ⟨nofun, nofun⟩
  | refused wants full =>
      refine ⟨fun halted => ?_, nofun⟩
      exact absurd halted (drives.runs.live live)

end Drive

/-! ## The feed -/

/-- The first tokens of some bytes, framed. -/
inductive Fetched (f : Feeder) : List UInt8 → List (List UInt8) → Prop
  | none (bytes : List UInt8) : Fetched f bytes []
  | token {bytes token rest framed : List UInt8} {tokens : List (List UInt8)}
      (next : f.scan bytes = .token token rest) (applied : f.frame token = .ok framed)
      (later : Fetched f rest tokens) :
      Fetched f bytes (framed :: tokens)

/-- The machine has been given bytes of the pending token or of the tokens fetched after it, and nothing
else has happened to it. -/
structure Moves (f : Feeder) (s s' : State) (given : List UInt8) (tokens : List (List UInt8)) :
    Prop where
  config : s'.machine.config = s.machine.config.within [] given
  prepared : s'.machine.prepared = s.machine.prepared
  count : s'.machine.count = s.machine.count
  live : s.machine.state ≠ .halted → s'.machine.state ≠ .halted
  moved : given ++ s'.pending = s.pending ++ tokens.flatten
  fetched : ∀ later, Fetched f s'.input.bytes later → Fetched f s.input.bytes (tokens ++ later)
  text : s'.journal.traceText = s.journal.traceText
  room : s'.journal.room = s.journal.room

inductive Turn.Moves (f : Feeder) (s : State) : Turn → Prop
  | again {s' : State} {given : List UInt8} {tokens : List (List UInt8)}
      (moves : Feed.Moves f s s' given tokens) : Turn.Moves f s (.again s')
  | done {s' : State} {ending : Ending} (machine : s'.machine = s.machine)
      (pending : s'.pending = s.pending) (text : s'.journal.traceText = s.journal.traceText) :
      Turn.Moves f s (.done s' ending)

section Moves

variable {f : Feeder} {s s' : State}

private theorem give_moves (f : Feeder) (s : State) :
    ∃ s' given, give s = .again s' ∧ Moves f s s' given [] := by
  obtain ⟨m, pending, input, output, journal⟩ := s
  obtain ⟨queue, written, unread, capacity⟩ := m.writeInput_eq (pending.take m.input.capacity)
  generalize m.input.capacity - m.input.length = room at written unread
  generalize accepted : min (pending.take m.input.capacity).length room = count at written
  have few : count ≤ m.input.capacity := by
    rw [← accepted, List.length_take]
    omega
  have given : (pending.take m.input.capacity).take room = pending.take count := by
    rw [List.take_eq_take_min, Nat.min_comm, accepted, List.take_take, Nat.min_eq_left few]
  rw [given] at unread
  refine ⟨_, pending.take count, by rw [give, written], ?_⟩
  refine ⟨?_, rfl, rfl, fun live => Machine.resumed_ne_halted live _, ?_, fun _ later => later, rfl, rfl⟩
  · simp [Machine.config, Config.within, unread]
  · simp

@[simp]
private theorem traceText_told (s : State) (message : String) :
    (s.told message).journal.traceText = s.journal.traceText := by
  simp [State.told, Journal.traceText, Journal.log]

private theorem fetch_moves (f : Feeder) (s : State) (spent : s.pending = []) :
    (fetch f s).Moves f s := by
  cases fetches f s with
  | failed _ stops =>
      rw [stops]
      exact .done rfl rfl (traceText_told _ _)
  | ended _ _ stops =>
      rw [stops]
      exact .done rfl rfl (by simp)
  | refused _ _ stops =>
      rw [stops]
      exact .done rfl rfl (by simp)
  | @framed token rest framed next applied goes =>
      obtain ⟨s', given, done, moves⟩ := give_moves f { s.told "waiting for input" with
        pending := framed, input := { s.input with bytes := rest } }
      rw [goes, done]
      refine .again (⟨moves.config, moves.prepared, moves.count, moves.live, ?_, ?_, ?_, ?_⟩ :
        Feed.Moves f s s' given [framed])
      · rw [moves.moved, spent]
        simp
      · intro later fetched
        exact .token next applied (moves.fetched later fetched)
      · exact moves.text.trans (traceText_told _ _)
      · exact moves.room

private theorem conclude_moves (f : Feeder) (s : State) (error : Option RunError) :
    (conclude f s error).Moves f s := by
  cases concludes f s error with
  | emptied _ again =>
      have moves : Feed.Moves f s (s.told "output buffer full") [] [] :=
        ⟨by simp [Config.within, State.told], rfl, rfl, id, by simp [State.told],
          fun _ later => later, traceText_told _ _, rfl⟩
      rw [again]
      exact .again moves
  | failed _ stops =>
      rw [stops]
      exact .done rfl rfl rfl
  | fetched _ _ spent goes =>
      rw [goes]
      exact fetch_moves f s spent
  | given _ _ _ goes =>
      obtain ⟨s', given, done, moves⟩ := give_moves f s
      rw [goes, done]
      exact .again moves
  | halted _ _ stops =>
      rw [stops]
      exact .done rfl rfl (traceText_told _ _)

private theorem conclude_of_halted (f : Feeder) (s : State) (halted : s.machine.state = .halted) :
    ∃ s' ending, conclude f s none = .done s' ending := by
  have onward : s.machine.state ≠ .waiting := by
    rw [halted]
    decide
  exact ⟨_, _, conclude_of_onward onward⟩

private theorem proceed_moves (f : Feeder) (s : State) {ran : Ran} {error : Option RunError}
    (halt : ran.halt = error.map .run) :
    ∃ queue sink, queue.capacity = ran.machine.output.capacity ∧
      (s.proceed f ran).Moves f
        ⟨{ ran.machine with output := queue }, s.pending, s.input, sink, ran.journal⟩ ∧
      (s.proceed f ran).Accepts
        ⟨{ ran.machine with output := queue }, s.pending, s.input, sink, ran.journal⟩ ∧
      (error = none → ran.machine.state = .halted → ∃ s' ending, s.proceed f ran = .done s' ending) := by
  have capacity := capacity_flush ran.machine.output s.output
  simp only [State.proceed, halt]
  generalize flush ran.machine.output s.output = flushed at capacity ⊢
  obtain ⟨queue, sink, fault⟩ := flushed
  refine ⟨queue, sink, capacity, ?_⟩
  cases fault with
  | some fault => exact ⟨.done rfl rfl rfl, ⟨⟨[], .nothing⟩, rfl⟩, fun _ _ => ⟨_, _, rfl⟩⟩
  | none =>
      cases error with
      | some error =>
          refine ⟨conclude_moves f _ _, conclude_accepts f _ _, ?_⟩
          intro fine
          cases fine
      | none =>
          exact ⟨conclude_moves f _ _, conclude_accepts f _ _, fun _ halted =>
            conclude_of_halted f _ halted⟩

end Moves

/-- What a feed has listed when it has come to its end: the visits of an ideal machine whose input is
what the machine had and what it has been given of the tokens. -/
structure Lists (k : Code) (f : Feeder) (s e : State) (n : Nat) (given : List UInt8)
    (tokens : List (List UInt8)) (visits : List Visit) (c : Config) : Prop where
  fetched : Fetched f s.input.bytes tokens
  moved : given ++ e.pending = s.pending ++ tokens.flatten
  visited : k.Visits n ⟨s.machine.pc, s.machine.tape, s.machine.input.unread ++ given, []⟩ visits c
  pc : e.machine.pc = c.pc
  tape : e.machine.tape = c.tape
  count : e.machine.count = s.machine.count + Int64.ofNat n
  text : e.journal.traceText = s.journal.traceText ++ Visit.text visits
  complete : (∀ visit ∈ visits, visit.executed = true) ↔
    ∃ fuel m', s.machine.run fuel = some ⟨m', none⟩ ∧ m'.state = .halted

section Lists

variable {k : Code} {f : Feeder} {s e : State} {c : Config} {n : Nat} {given : List UInt8}
  {tokens : List (List UInt8)} {last : Machine} {stop : Stop} {visits : List Visit} {d : Config}
  {ran : Ran} {queue : Buffer} {sink : Sink}

private theorem Lists.of_done (ready : s.machine.Ready)
    (drives : Drives k s.machine ⟨s.machine.pc, s.machine.tape, s.machine.input.unread, []⟩
      s.machine.output.unread s.journal n last stop visits d ran)
    (machine : e.machine = { ran.machine with output := queue }) (pending : e.pending = s.pending)
    (text : e.journal.traceText = ran.journal.traceText) : Lists k f s e n [] [] visits d := by
  obtain ⟨config, count, _⟩ := StopsAs.view drives.stops
  have place := drives.place.trans config.symm
  refine ⟨.none _, by simp [pending], ?_, ?_, ?_, ?_, text.trans drives.text,
    drives.complete.trans (drives.halted_iff ready)⟩
  · rw [List.append_nil]
    exact drives.visited
  · rw [machine, drives.machine]
    exact (congrArg Config.pc place).symm
  · rw [machine, drives.machine]
    exact (congrArg Config.tape place).symm
  · rw [machine, drives.machine, ← drives.runs.count]
    exact count

private theorem Lists.of_again {s' : State} {given' : List UInt8} {tokens' : List (List UInt8)}
    {visits' : List Visit} {c : Config} {n' : Nat} (ready : s.machine.Ready)
    (drives : Drives k s.machine ⟨s.machine.pc, s.machine.tape, s.machine.input.unread, []⟩
      s.machine.output.unread s.journal n last stop visits d ran)
    (onward : ¬ ∃ m', stop = .halted m')
    (moves : Moves f ⟨{ ran.machine with output := queue }, s.pending, s.input, sink, ran.journal⟩ s'
      given tokens)
    (later : Lists k f s' e n' given' tokens' visits' c) :
    ∃ c', Lists k f s e (n + n') (given ++ given') (tokens ++ tokens') (visits ++ visits') c' := by
  obtain ⟨config, count, _⟩ := StopsAs.view drives.stops
  have place := drives.place.trans config.symm
  rw [← drives.machine] at place
  have front := drives.visited.within [] (given ++ given')
  have back := later.visited.within d.output []
  -- What the first run has left is what the rest of the feed starts with.
  have joint : d.within [] (given ++ given') =
      (⟨s'.machine.pc, s'.machine.tape, s'.machine.input.unread ++ given', []⟩ : Config).within
        d.output [] := by
    have pc := congrArg Config.pc moves.config
    have tape := congrArg Config.tape moves.config
    have unread := congrArg Config.input moves.config
    have dpc := congrArg Config.pc place
    have dtape := congrArg Config.tape place
    have dunread := congrArg Config.input place
    simp only [Config.within, Machine.config, List.nil_append] at pc tape unread
    simp only [Config.within, Machine.config, List.append_nil] at dpc dtape dunread
    simp only [Config.within, List.append_nil, List.nil_append]
    rw [pc, tape, unread, dpc, dtape, dunread, List.append_assoc]
  rw [← joint] at back
  refine ⟨c.within d.output [], ⟨?_, ?_, ?_, later.pc, later.tape, ?_, ?_, ?_⟩⟩
  · exact moves.fetched tokens' later.fetched
  · rw [List.append_assoc, later.moved, ← List.append_assoc, moves.moved, List.flatten_append,
      List.append_assoc]
  · exact front.trans back
  · rw [later.count, moves.count, Int64.ofNat_add, ← Int64.add_assoc, ← drives.runs.count]
    rw [drives.machine, count]
  · rw [later.text, moves.text, drives.text, Visit.text_append, List.append_assoc]
  · constructor
    · intro all
      refine absurd (drives.complete.mp fun visit member => ?_) onward
      exact all visit (List.mem_append_left visits' member)
    · intro halts
      exact absurd ((drives.halted_iff ready).mpr halts) onward

theorem lists_of_feedWithin {fuel turns : Nat} {ending : Ending} (traced : f.tracing = true)
    (consistent : s.machine.Consistent) (prepared : s.machine.prepared = true)
    (live : s.machine.state ≠ .halted) (holds : s.machine.Holds k)
    (unlimited : s.journal.room = none) (fed : feedWithin f fuel turns s = some (e, ending)) :
    ∃ n given tokens visits c, Lists k f s e n given tokens visits c := by
  induction turns generalizing s with
  | zero => simp [feedWithin] at fed
  | succ turns ih =>
      have ready := consistent.ready prepared live
      rw [feedWithin] at fed
      cases turned : turn f fuel s with
      | none => simp [turned] at fed
      | some t =>
          rw [turned] at fed
          rw [turn_eq_proceed, runMachine, if_pos traced, Option.map_eq_some_iff] at turned
          obtain ⟨ran, driven, rfl⟩ := turned
          obtain ⟨n, last, stop, visits, d, drives⟩ := drives_of_runTraced ready holds
            (show (⟨s.machine.pc, s.machine.tape, s.machine.input.unread, []⟩ : Config).within
              s.machine.output.unread [] = s.machine.config by simp [Config.within, Machine.config])
            unlimited driven
          obtain ⟨queue, sink, capacity, moves, accepts, ended⟩ := proceed_moves f s drives.halt
          generalize s.proceed f ran = t at fed moves accepts ended
          cases moves with
          | done machine pending text =>
              simp only [Option.some.injEq, Prod.mk.injEq] at fed
              obtain ⟨rfl, rfl⟩ := fed
              exact ⟨n, [], [], visits, d, .of_done ready drives machine pending text⟩
          | @again s' given tokens moves =>
              have onward : ¬ ∃ m', stop = .halted m' := by
                rintro ⟨m', rfl⟩
                obtain ⟨_, _, last_turn⟩ :=
                  ended rfl ((drives.state_eq_halted_iff live).mpr ⟨m', rfl⟩)
                cases last_turn
              have stopped := mt (drives.state_eq_halted_iff live).mp onward
              have same := drives.sameFrame
              have settled := drives.consistent consistent live
              have room : 0 < queue.capacity := by
                rw [capacity]
                exact settled.outputRoom
              have consistent' : s'.machine.Consistent := accepts.consistent
                (settled.with_stores ran.machine.tape settled.inputRoom room)
              have prepared' : s'.machine.prepared = true := by
                rw [moves.prepared, ← prepared]
                exact same.prepared
              have holds' : s'.machine.Holds k := by
                obtain ⟨accepted, does⟩ := accepts.machine
                have flushed : ran.machine.SameFrame { ran.machine with output := queue } :=
                  ⟨rfl, rfl, rfl, rfl, rfl, capacity⟩
                exact holds.of_sameFrame ((same.trans flushed).trans does.sameFrame)
              have unlimited' : s'.journal.room = none := by
                rw [moves.room]
                exact drives.unlimited
              obtain ⟨n', given', tokens', visits', c, later⟩ :=
                ih consistent' prepared' (moves.live stopped) holds' unlimited' fed
              obtain ⟨c', lists⟩ := Lists.of_again ready drives onward moves later
              exact ⟨_, _, _, _, _, lists⟩

end Lists

/-- A trace has the lines of the instructions that have been executed, in order, and between them the
lines of the attempts that were held up. It has nothing else in it exactly if the machine, left to
itself, comes to the end of its program: otherwise an instruction waits or is refused, and its line is
written although it has not been executed, and again when it is. -/
theorem trace_lists_attempts {m : Machine} (reachable : m.Reachable) (prepared : m.prepared = true)
    (live : m.state ≠ .halted) {k : Code} (program : m.program.toList = k.program) (f : Feeder)
    (traced : f.tracing = true) (input : Source) (sink : Sink) (journal : Journal)
    (unlimited : journal.room = none) {fuel : Nat} {e : State} {ending : Ending}
    (fed : feed f fuel (.start m input sink journal) = some (e, ending)) :
    ∃ n given tokens visits c,
      Fetched f input.bytes tokens ∧ given ++ e.pending = tokens.flatten ∧
      k.Visits n ⟨m.pc, m.tape, m.input.unread ++ given, []⟩ visits c ∧
      e.machine.pc = c.pc ∧ e.machine.tape = c.tape ∧ e.machine.count = m.count + Int64.ofNat n ∧
      e.journal.traceText = journal.traceText ++ Visit.text visits ∧
      (visits.filter Visit.executed).map Visit.line =
        k.lines n ⟨m.pc, m.tape, m.input.unread ++ given, []⟩ ∧
      (e.journal.traceText = journal.traceText ++
          (k.lines n ⟨m.pc, m.tape, m.input.unread ++ given, []⟩).flatten ↔
        ∃ fuel m', m.run fuel = some ⟨m', none⟩ ∧ m'.state = .halted) := by
  have consistent := reachable.consistent
  have holds := consistent.toSound.holds_of_program program
  obtain ⟨n, given, tokens, visits, c, lists⟩ :=
    lists_of_feedWithin traced consistent prepared live holds unlimited fed
  have executed := lists.visited.lines_executed
  refine ⟨n, given, tokens, visits, c, lists.fetched, lists.moved, lists.visited, lists.pc,
    lists.tape, lists.count, lists.text, executed, ?_⟩
  have once := (Visit.text_filter_iff lists.visited.line_ne_nil).trans lists.complete
  have lines : Visit.text (visits.filter Visit.executed) = (k.lines n _).flatten :=
    congrArg List.flatten executed
  rw [lines] at once
  refine Iff.trans ?_ once
  rw [show e.journal.traceText = journal.traceText ++ Visit.text visits from lists.text]
  exact List.append_right_inj _

/-- A program that neither waits nor is refused: its trace has a line for each of its two instructions
and none for the comment between them. -/
theorem trace_lists_attempts_unheld : ∃ m e k n c,
    (Request.prepare [43, 32, 46]).perform
      (Machine.ofSizes ⟨1, 1, 1, by decide, by decide, by decide⟩) = some (m, .done) ∧
    feed { tracing := true } 5 (.start m (.ofBytes []) .unlimited .unlimited) = some (e, .halted) ∧
    m.program.toList = Code.program k ∧ k.advance n ⟨m.pc, m.tape, [], []⟩ = some c ∧
    e.machine.pc = c.pc ∧ e.machine.count = Int64.ofNat n ∧
    e.journal.traceText = (k.lines n ⟨m.pc, m.tape, [], []⟩).flatten := by
  let start := Machine.ofSizes ⟨1, 1, 1, by decide, by decide, by decide⟩
  let m := start.loaded [43, 32, 46] #[none, none, none]
  have loads : (Request.prepare [43, 32, 46]).perform start = some (m, .done) := rfl
  have reachable : m.Reachable :=
    ⟨[(.cells, 1), (.input, 1), (.output, 1)], start, rfl, .request .refl trivial loads⟩
  obtain ⟨⟨e, ending⟩, fed, view⟩ := Option.map_eq_some_iff.mp
    (show (feed { tracing := true } 5 (.start m (.ofBytes []) .unlimited .unlimited)).map
      (fun e => (e.2, e.1.pending)) = some (.halted, []) by decide +kernel)
  simp only [Prod.mk.injEq] at view
  obtain ⟨rfl, spent⟩ := view
  obtain ⟨n, given, tokens, visits, c, fetched, moved, visited, pc, -, count, -, -, once⟩ :=
    trace_lists_attempts reachable rfl nofun (show m.program.toList =
      (⟨[43, 32, 46], #[none, none, none], rfl⟩ : Code).program from rfl) _ rfl _ _ _ rfl fed
  have nothing : given = [] := by
    cases fetched with
    | none => exact (List.append_eq_nil_iff.mp moved).1
    | token next _ _ => cases next
  subst nothing
  refine ⟨m, e, _, n, c, loads, fed, rfl, visited.advance, pc, ?_, once.mpr ⟨4, _, rfl, rfl⟩⟩
  rw [count]
  exact Int64.zero_add _

/-- An input instruction that waits for its byte and is then executed once is listed twice. -/
theorem waiting_is_listed_again : ∃ m e,
    (Request.prepare [44, 46]).perform
      (Machine.ofSizes ⟨1, 1, 1, by decide, by decide, by decide⟩) = some (m, .done) ∧
    feed { split := .bytes, frame := .raw, tracing := true } 5
      (.start m (.ofBytes [120]) .unlimited .unlimited) = some (e, .halted) ∧
    e.machine.count = 2 ∧
    e.journal.traceText = Text.bytes
      "         0\tin\t[0]=0\n         0\tin\t[0]=0\n         1\tout\t[0]=120\n" ∧
    (Code.lines ⟨[44, 46], #[none, none], rfl⟩ 2 ⟨m.pc, m.tape, [120], []⟩).flatten = Text.bytes
      "         0\tin\t[0]=0\n         1\tout\t[0]=120\n" := by
  let m := (Machine.ofSizes ⟨1, 1, 1, by decide, by decide, by decide⟩).loaded [44, 46] #[none, none]
  obtain ⟨⟨e, ending⟩, fed, view⟩ := Option.map_eq_some_iff.mp
    (show (feed { split := .bytes, frame := .raw, tracing := true } 5
        (.start m (.ofBytes [120]) .unlimited .unlimited)).map
      (fun e => (e.2, e.1.machine.count, e.1.journal.traceText)) =
        some (.halted, 2, Text.bytes
          "         0\tin\t[0]=0\n         0\tin\t[0]=0\n         1\tout\t[0]=120\n") by
      decide +kernel)
  simp only [Prod.mk.injEq] at view
  obtain ⟨rfl, count, text⟩ := view
  exact ⟨m, e, rfl, fed, count, text, by decide +kernel⟩

end Feed

end TapeMachine
