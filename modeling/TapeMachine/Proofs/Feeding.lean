import TapeMachine.Feed.Loop
import TapeMachine.Proofs.Calls
import TapeMachine.Proofs.Consistency
/-!
# Feeding refines the ideal machine

A feed moves bytes between its source, a pending token, two queues and a sink. Seen as one ideal
machine, with everything still to be read as its input and everything written as its output, none of
these moves changes anything, and every run of the machine is a run of the ideal machine. Every turn
that does not end the feed executes an instruction or works off some of the backlog.
-/

set_option autoImplicit false
set_option relaxedAutoImplicit false

namespace TapeMachine.Feed

/-- The framed tokens that a feeder gets from bytes if neither its scanner nor its frame fails. -/
inductive Framed (f : Feeder) : List UInt8 → List (List UInt8) → Prop
  | ended {bytes : List UInt8} (nothing : f.scan bytes = .ended) :
      Framed f bytes []
  | closed {bytes token rest : List UInt8}
      (next : f.scan bytes = .token token rest)
      (closes : f.frame token = .error .inputEnded) : Framed f bytes []
  | token {bytes token rest framed : List UInt8} {tokens : List (List UInt8)}
      (next : f.scan bytes = .token token rest)
      (applied : f.frame token = .ok framed) (later : Framed f rest tokens) :
      Framed f bytes (framed :: tokens)

/-- What can be seen when a feed has come to its end. -/
structure Report where
  ending : Ending
  written : List UInt8
  pc : Nat
  tape : Tape
  count : Int64

def State.report (s : State) (ending : Ending) : Report :=
  ⟨ending, s.output.accepted.toList, s.machine.pc, s.machine.tape, s.machine.count⟩

/-- Feeding a machine with bytes, into a sink that accepts everything, comes to an end. -/
def Feeds (f : Feeder) (m : Machine) (bytes : List UInt8) (journal : Journal) (r : Report) : Prop :=
  ∃ fuel s ending,
    feed f fuel (State.start m (.ofBytes bytes) .unlimited journal) = some (s, ending) ∧
      r = s.report ending

/-- The ideal machine stops, and this is what can be seen of it. -/
def IdealReport (k : Code) (c : Config) (count : Int64) (before : List UInt8) (r : Report) : Prop :=
  ∃ n c', k.advance n c = some c' ∧
    (r.ending = .halted ∧ k.Halted c' ∨ r.ending = .inputEnded ∧ k.Blocked c') ∧
    r.written = before ++ c'.output ∧ r.pc = c'.pc ∧ r.tape = c'.tape ∧
    r.count = count + Int64.ofNat n

inductive Turns (f : Feeder) (fuel : Nat) : Nat → State → State → Prop
  | refl (s : State) : Turns f fuel 0 s s
  | again {n : Nat} {s s₁ s₂ : State} (first : turn f fuel s = some (.again s₁))
      (rest : Turns f fuel n s₁ s₂) : Turns f fuel (n + 1) s s₂

/-- A feed under way as one ideal machine. -/
def State.config (s : State) (tokens : List (List UInt8)) : Config :=
  s.machine.config.within s.output.accepted.toList (s.pending ++ tokens.flatten)

/-- What is still to be moved: bytes to be fed, tokens to be fetched and bytes to be flushed. -/
def State.backlog (s : State) (tokens : List (List UInt8)) : Nat :=
  (s.pending ++ tokens.flatten).length + tokens.length + s.machine.output.length

/-- A feed under way, without trace or faults, with the tokens it has not fetched yet. -/
structure Feeding (k : Code) (f : Feeder) (s : State) (tokens : List (List UInt8)) : Prop where
  untraced : f.tracing = false
  holds : s.machine.Holds k
  prepared : s.machine.prepared = true
  live : s.machine.state ≠ .halted
  inputRoom : 0 < s.machine.input.capacity
  outputRoom : 0 < s.machine.output.capacity
  framed : Framed f s.input.bytes tokens
  intact : s.input.fault = none
  unlimited : s.output.room = none

theorem flush_unlimited (queue : Buffer) (sink : Sink) (unlimited : sink.room = none) :
    ∃ queue' sink', flush queue sink = (queue', sink', none) ∧ queue'.unread = [] ∧
      queue'.capacity = queue.capacity ∧ sink'.room = none ∧
      sink'.accepted.toList = sink.accepted.toList ++ queue.unread := by
  generalize size : queue.length = n
  induction n using Nat.strongRecOn generalizing queue sink with
  | _ n ih =>
      rw [flush]
      by_cases some_left : queue.hasUnread = true
      · have unread := queue.hasUnread_iff.mp some_left
        have shorter : (queue.take blockSize).2.length < n := by
          rw [Buffer.length_take, ← size]
          have positive : queue.length ≠ 0 := fun h => unread (queue.unread_eq_nil_iff.mpr h)
          simp only [blockSize]
          omega
        obtain ⟨accepted, room, fault⟩ := sink
        simp only at unlimited
        subst unlimited
        obtain ⟨queue', sink', flushed, empty, capacity, room, written⟩ :=
          ih _ shorter (queue.take blockSize).2
            ⟨accepted ++ (queue.take blockSize).1, none, fault⟩ rfl rfl
        refine ⟨queue', sink', ?_, empty, ?_, room, ?_⟩
        · simpa [some_left, Sink.write] using flushed
        · rw [capacity, Buffer.capacity_take]
        · rw [written, Buffer.unread_take, Array.toList_appendList, Buffer.fst_take,
            List.append_assoc, List.take_append_drop]
      · have empty : queue.unread = [] := by
          rw [queue.hasUnread_iff] at some_left
          simpa using some_left
        exact ⟨queue, sink, by simp [some_left], empty, rfl, unlimited, by simp [empty]⟩

variable {k : Code} {f : Feeder} {s : State} {tokens : List (List UInt8)}

private theorem give_starved (feeding : Feeding k f s tokens)
    (empty : s.machine.input.unread = []) :
    ∃ s', give s = .again s' ∧ Feeding k f s' tokens ∧ s'.config tokens = s.config tokens ∧
      s'.machine.count = s.machine.count ∧ s'.machine.output = s.machine.output ∧
      s'.pending.length ≤ s.pending.length ∧
      (s.pending ≠ [] → s'.pending.length < s.pending.length) := by
  obtain ⟨m, pending, input, output, journal⟩ := s
  obtain ⟨queue, written, unread, capacity⟩ := m.writeInput_eq (pending.take m.input.capacity)
  have length : m.input.length = 0 := m.input.unread_eq_nil_iff.mp empty
  have inputRoom : 0 < m.input.capacity := feeding.inputRoom
  rw [length, Nat.sub_zero] at written unread
  generalize accepted : min (pending.take m.input.capacity).length m.input.capacity = count
    at written
  rw [List.length_take] at accepted
  have moved : queue.unread ++ pending.drop count = pending := by
    have same : (pending.take m.input.capacity).take m.input.capacity = pending.take count := by
      rw [List.take_take, List.take_eq_take_iff]
      omega
    rw [unread, show m.input.unread = [] from empty, same, List.nil_append,
      List.take_append_drop]
  refine ⟨⟨{ m with input := queue, state := Machine.resumed m.state queue.unread },
    pending.drop count, input, output, journal⟩, ?_, ?_, ?_, rfl, rfl, ?_, ?_⟩
  · simp only [give, written]
  · exact ⟨feeding.untraced, ⟨feeding.holds.program, feeding.holds.jumps⟩, feeding.prepared,
      Machine.resumed_ne_halted feeding.live _, by rw [capacity]; exact inputRoom,
      feeding.outputRoom, feeding.framed, feeding.intact, feeding.unlimited⟩
  · have whole : queue.unread ++ (pending.drop count ++ tokens.flatten) =
        m.input.unread ++ (pending ++ tokens.flatten) := by
      rw [← List.append_assoc, moved, show m.input.unread = [] from empty, List.nil_append]
    simp only [State.config, Config.within, Machine.config, whole]
  · simp only [List.length_drop]
    omega
  · intro some_pending
    have := List.length_pos_iff.mpr some_pending
    simp only [List.length_drop] at this ⊢
    omega

private theorem fetch_starved (feeding : Feeding k f s tokens)
    (empty : s.machine.input.unread = []) (spent : s.pending = []) :
    (tokens = [] ∧ ∃ s', fetch f s = .done s' .inputEnded ∧
      s'.report .inputEnded = s.report .inputEnded) ∨
    ∃ s' tokens', fetch f s = .again s' ∧ Feeding k f s' tokens' ∧
      s'.config tokens' = s.config tokens ∧ s'.machine.count = s.machine.count ∧
      s'.machine.output = s.machine.output ∧
      (s'.pending ++ tokens'.flatten).length + tokens'.length <
        (s.pending ++ tokens.flatten).length + tokens.length := by
  cases feeding.framed with
  | ended nothing =>
      have fetched : fetch f s = .done { s with
          journal := (s.journal.log (event s.machine "waiting for input")).log
            (event s.machine "end of input") } .inputEnded := by
        simp only [fetch, nothing, feeding.intact]
      exact Or.inl ⟨rfl, _, fetched, rfl⟩
  | @closed _ token rest next closes =>
      have fetched : fetch f s = .done { s with
          input := { s.input with bytes := rest }
          journal := (s.journal.log (event s.machine "waiting for input")).log
            (event s.machine "end of input") } .inputEnded := by
        simp only [fetch, next, closes, FrameError.ending]
      exact Or.inl ⟨rfl, _, fetched, rfl⟩
  | @token _ token rest framed later next applied others =>
      have ready : Feeding k f { s with
          pending := framed
          input := { s.input with bytes := rest }
          journal := s.journal.log (event s.machine "waiting for input") } later :=
        ⟨feeding.untraced, feeding.holds, feeding.prepared, feeding.live, feeding.inputRoom,
          feeding.outputRoom, others, feeding.intact, feeding.unlimited⟩
      obtain ⟨s', given, feeding', config, count, queues, shorter, _⟩ := give_starved ready empty
      refine Or.inr ⟨s', later, ?_, feeding', ?_, count, queues, ?_⟩
      · simp only [fetch, next, applied]
        exact given
      · rw [config]
        simp [State.config, spent]
      · have bound : s'.pending.length ≤ framed.length := shorter
        simp only [spent, List.nil_append, List.flatten_cons, List.length_append,
          List.length_cons]
        omega

/-- What one turn does, seen as an ideal machine. -/
private inductive Goes (k : Code) (f : Feeder) (s : State) (tokens : List (List UInt8)) :
    Turn → Prop
  | again {s' : State} {tokens' : List (List UInt8)} {n : Nat} (feeding : Feeding k f s' tokens')
      (run : k.advance n (s.config tokens) = some (s'.config tokens'))
      (count : s'.machine.count = s.machine.count + Int64.ofNat n)
      (progress : s'.backlog tokens' < n + s.backlog tokens) : Goes k f s tokens (.again s')
  | done {s' : State} {ending : Ending} {c : Config} {n : Nat}
      (run : k.advance n (s.config tokens) = some c)
      (ends : ending = .halted ∧ k.Halted c ∨ ending = .inputEnded ∧ k.Blocked c)
      (report : s'.report ending =
        ⟨ending, c.output, c.pc, c.tape, s.machine.count + Int64.ofNat n⟩) :
      Goes k f s tokens (.done s' ending)

private theorem turn_of_none (feeding : Feeding k f s tokens) {fuel : Nat}
    (ran : Machine.exec .unbounded fuel 0 s.machine = none) : turn f fuel s = none := by
  unfold turn runMachine
  simp [feeding.untraced, Machine.run, Machine.runWithin_of_live _ _ feeding.prepared feeding.live, ran]

private structure Flushed (s : State) (m' : Machine) (queue : Buffer) (sink : Sink) : Prop where
  flushed : flush m'.output s.output = (queue, sink, none)
  drained : queue.unread = []
  capacity : queue.capacity = m'.output.capacity
  room : sink.room = none
  accepted : sink.accepted.toList = s.output.accepted.toList ++ m'.output.unread

private def State.after (s : State) (m' : Machine) (queue : Buffer) (sink : Sink) (state : RunState)
    (journal : Journal) : State :=
  ⟨{ m' with state := state, output := queue }, s.pending, s.input, sink, journal⟩

section Turn

variable {n fuel : Nat} {m' : Machine} {queue : Buffer} {sink : Sink}

private theorem Flushed.feeding (flushed : Flushed s m' queue sink) (feeding : Feeding k f s tokens)
    (run : Machine.Runs n s.machine m') (journal : Journal) {state : RunState}
    (live : state ≠ .halted) : Feeding k f (s.after m' queue sink state journal) tokens := by
  have same := run.sameFrame
  have holds := feeding.holds.of_sameFrame same
  have inputRoom : 0 < m'.input.capacity := by
    rw [same.input]
    exact feeding.inputRoom
  have outputRoom : 0 < queue.capacity := by
    rw [flushed.capacity, same.output]
    exact feeding.outputRoom
  exact ⟨feeding.untraced, ⟨holds.program, holds.jumps⟩, same.prepared.trans feeding.prepared, live,
    inputRoom, outputRoom, feeding.framed, feeding.intact, flushed.room⟩

private theorem Flushed.advance (flushed : Flushed s m' queue sink) (feeding : Feeding k f s tokens)
    (run : Machine.Runs n s.machine m') (state : RunState) (journal : Journal) :
    k.advance n (s.config tokens) = some ((s.after m' queue sink state journal).config tokens) := by
  have advanced := Code.advance_within s.output.accepted.toList (s.pending ++ tokens.flatten)
    (run.advance feeding.holds)
  rw [State.config, advanced]
  simp [State.after, State.config, Config.within, Machine.config, flushed.drained, flushed.accepted]

private theorem Flushed.report (flushed : Flushed s m' queue sink)
    (run : Machine.Runs n s.machine m') (state : RunState) (journal : Journal) (ending : Ending) :
    (s.after m' queue sink state journal).report ending =
      ⟨ending, ((s.after m' queue sink state journal).config tokens).output, m'.pc, m'.tape,
        s.machine.count + Int64.ofNat n⟩ := by
  simp [State.report, State.after, State.config, Config.within, Machine.config, flushed.drained,
    run.count]

private theorem Flushed.length_eq_zero (flushed : Flushed s m' queue sink) : queue.length = 0 :=
  queue.unread_eq_nil_iff.mp flushed.drained

private theorem turn_halted (feeding : Feeding k f s tokens) (run : Machine.Runs n s.machine m')
    (flushed : Flushed s m' queue sink)
    (ran : s.machine.run fuel = some (Stop.halted { m' with state := .halted }).outcome)
    (ended : m'.program.size ≤ m'.pc) : ∃ t, turn f fuel s = some t ∧ Goes k f s tokens t := by
  let journal := s.journal.log (event { m' with state := .halted, output := queue } "halted")
  have turned : turn f fuel s = some (.done (s.after m' queue sink .halted journal) .halted) := by
    simp [turn, runMachine, feeding.untraced, ran, Stop.outcome, flushed.flushed,
      Machine.isWaiting, State.after, journal]
  have halted := (feeding.holds.of_sameFrame run.sameFrame).halted_iff.mpr ended
  exact ⟨_, turned, .done (flushed.advance feeding run .halted journal) (Or.inl ⟨rfl, halted⟩)
    (flushed.report run .halted journal .halted)⟩

private theorem turn_starved (feeding : Feeding k f s tokens) (run : Machine.Runs n s.machine m')
    (flushed : Flushed s m' queue sink)
    (ran : s.machine.run fuel = some (Stop.starved { m' with state := .waiting }).outcome)
    (wants : m'.program[m'.pc]? = some Instruction.input.toByte) (empty : m'.input.unread = []) :
    ∃ t, turn f fuel s = some t ∧ Goes k f s tokens t := by
  have waiting : Feeding k f (s.after m' queue sink .waiting s.journal) tokens :=
    flushed.feeding feeding run s.journal RunState.noConfusion
  have advanced := flushed.advance feeding run .waiting s.journal
  have emptied := flushed.length_eq_zero
  by_cases spent : s.pending = []
  · have turned : turn f fuel s = some (fetch f (s.after m' queue sink .waiting s.journal)) := by
      simp [turn, runMachine, feeding.untraced, ran, Stop.outcome, flushed.flushed,
        Machine.isWaiting, State.after, spent]
    rcases fetch_starved waiting empty spent with
      ⟨none_left, s', fetched, report⟩ | ⟨s', tokens', fetched, feeding', config, count, queues, less⟩
    · rw [fetched] at turned
      have fetch_at : k.program[m'.pc]? = some Instruction.input.toByte :=
        (feeding.holds.of_sameFrame run.sameFrame).fetch.trans wants
      have blocked : k.Blocked ((s.after m' queue sink .waiting s.journal).config tokens) := by
        refine ⟨fetch_at, ?_⟩
        simp [State.after, State.config, Config.within, Machine.config, empty, spent, none_left]
      exact ⟨_, turned, .done advanced (Or.inr ⟨rfl, blocked⟩)
        (report.trans (flushed.report run .waiting s.journal .inputEnded))⟩
    · rw [fetched] at turned
      rw [← config] at advanced
      refine ⟨_, turned, .again feeding' advanced (count.trans run.count) ?_⟩
      simp only [State.backlog, queues, State.after, emptied] at less ⊢
      omega
  · have turned : turn f fuel s = some (give (s.after m' queue sink .waiting s.journal)) := by
      simp [turn, runMachine, feeding.untraced, ran, Stop.outcome, flushed.flushed,
        Machine.isWaiting, State.after, spent]
    obtain ⟨s', given, feeding', config, count, queues, _, shorter⟩ := give_starved waiting empty
    rw [given] at turned
    rw [← config] at advanced
    have less := shorter spent
    refine ⟨_, turned, .again feeding' advanced (count.trans run.count) ?_⟩
    simp only [State.backlog, List.length_append, queues, State.after, emptied] at less ⊢
    omega

private theorem turn_refused (feeding : Feeding k f s tokens) (run : Machine.Runs n s.machine m')
    (flushed : Flushed s m' queue sink) (ran : s.machine.run fuel = some (Stop.refused m').outcome)
    (full : m'.output.capacity ≤ m'.output.length) :
    ∃ t, turn f fuel s = some t ∧ Goes k f s tokens t := by
  let journal := s.journal.log (event { m' with output := queue } "output buffer full")
  have turned : turn f fuel s = some (.again (s.after m' queue sink m'.state journal)) := by
    simp [turn, runMachine, feeding.untraced, ran, Stop.outcome, flushed.flushed, State.after, journal]
  have feeding' := flushed.feeding feeding run journal (run.live feeding.live)
  refine ⟨_, turned, .again feeding' (flushed.advance feeding run _ journal) run.count ?_⟩
  have emptied := flushed.length_eq_zero
  simp only [State.backlog, State.after, emptied]
  -- Either an instruction has been executed, or the full queue has been emptied.
  cases run with
  | refl =>
      have outputRoom := feeding.outputRoom
      omega
  | step first rest => omega

end Turn

private theorem turn_of_some (feeding : Feeding k f s tokens) {fuel : Nat} {stop : Stop}
    (ran : Machine.exec .unbounded fuel 0 s.machine = some stop) :
    ∃ t, turn f fuel s = some t ∧ Goes k f s tokens t := by
  obtain ⟨m', run, stops⟩ := Machine.exec_eq_some ran
  obtain ⟨queue, sink, flushes, drained, capacity, room, accepted⟩ :=
    flush_unlimited m'.output s.output feeding.unlimited
  have flushed : Flushed s m' queue sink := ⟨flushes, drained, capacity, room, accepted⟩
  have runs := Machine.runWithin_of_live .unbounded fuel feeding.prepared feeding.live
  rw [ran, Option.map_some] at runs
  cases stops with
  | bounded inside reached => cases reached
  | halted ended => exact turn_halted feeding run flushed runs ended
  | starved wants empty => exact turn_starved feeding run flushed runs wants empty
  | refused wants full => exact turn_refused feeding run flushed runs full

private theorem turn_goes (feeding : Feeding k f s tokens) {fuel : Nat} {t : Turn}
    (turned : turn f fuel s = some t) : Goes k f s tokens t := by
  cases ran : Machine.exec .unbounded fuel 0 s.machine with
  | none =>
      rw [turn_of_none feeding ran] at turned
      cases turned
  | some stop =>
      obtain ⟨t', turned', goes⟩ := turn_of_some feeding ran
      rw [turned, Option.some.injEq] at turned'
      rw [turned']
      exact goes

private theorem feedWithin_sound {fuel turns : Nat} {s' : State} {ending : Ending}
    (feeding : Feeding k f s tokens) (fed : feedWithin f fuel turns s = some (s', ending)) :
    ∃ n c, k.advance n (s.config tokens) = some c ∧
      (ending = .halted ∧ k.Halted c ∨ ending = .inputEnded ∧ k.Blocked c) ∧
      s'.report ending = ⟨ending, c.output, c.pc, c.tape, s.machine.count + Int64.ofNat n⟩ := by
  induction turns generalizing s tokens with
  | zero => simp [feedWithin] at fed
  | succ turns ih =>
      rw [feedWithin] at fed
      cases turned : turn f fuel s with
      | none => simp [turned] at fed
      | some t =>
          rw [turned] at fed
          cases turn_goes feeding turned with
          | @again s₁ tokens₁ m feeding₁ run₁ count₁ _ =>
              obtain ⟨n, c, run, ends, report⟩ := ih feeding₁ fed
              refine ⟨m + n, c, Code.advance_trans run₁ run, ends, ?_⟩
              rw [report, count₁, Int64.ofNat_add, Int64.add_assoc]
          | done run ends report =>
              simp only [Option.some.injEq, Prod.mk.injEq] at fed
              obtain ⟨rfl, rfl⟩ := fed
              exact ⟨_, _, run, ends, report⟩

private theorem feedWithin_complete {fuel turns n : Nat} {c : Config}
    (feeding : Feeding k f s tokens) (run : k.advance n (s.config tokens) = some c)
    (stopped : k.next? c = none) (enough : n < fuel) (turnsLeft : n + s.backlog tokens < turns) :
    ∃ s' ending, feedWithin f fuel turns s = some (s', ending) := by
  -- Every turn works off a part of what is left of the ideal run and of the backlog.
  induction turns generalizing s tokens n with
  | zero => omega
  | succ turns ih =>
      obtain ⟨stop, ran⟩ := Machine.exec_of_stopped .unbounded 0 feeding.holds run stopped enough
      obtain ⟨t, turned, goes⟩ := turn_of_some feeding ran
      rw [feedWithin, turned]
      cases goes with
      | @again s₁ tokens₁ m feeding₁ run₁ _ progress =>
          have short := Code.advance_le_of_stopped run stopped run₁
          exact ih feeding₁ (Code.advance_sub_of_stopped run stopped run₁) (by omega) (by omega)
      | done => exact ⟨_, _, rfl⟩

private theorem turns_progress {fuel turns : Nat} {s' : State} (feeding : Feeding k f s tokens)
    (went : Turns f fuel turns s s') :
    ∃ n tokens', Feeding k f s' tokens' ∧
      k.advance n (s.config tokens) = some (s'.config tokens') ∧
      s'.machine.count = s.machine.count + Int64.ofNat n ∧
      turns + s'.backlog tokens' ≤ n + s.backlog tokens := by
  induction went generalizing tokens with
  | refl s => exact ⟨0, tokens, feeding, rfl, by simp, by omega⟩
  | again first _ ih =>
      cases turn_goes feeding first with
      | @again _ tokens₁ m feeding₁ run₁ count₁ progress =>
          obtain ⟨n, tokens', feeding', run, count, bound⟩ := ih feeding₁
          refine ⟨m + n, tokens', feeding', Code.advance_trans run₁ run, ?_, by omega⟩
          rw [count, count₁, Int64.ofNat_add, Int64.add_assoc]

theorem feeding_start {m : Machine} {bytes : List UInt8} (journal : Journal)
    (reachable : m.Reachable) (program : m.program.toList = k.program)
    (prepared : m.prepared = true) (live : m.state ≠ .halted) (untraced : f.tracing = false)
    (framed : Framed f bytes tokens) :
    Feeding k f (State.start m (.ofBytes bytes) .unlimited journal) tokens := by
  have consistent := reachable.consistent
  have holds := consistent.toSound.holds_of_program program
  exact ⟨untraced, holds, prepared, live, consistent.inputRoom, consistent.outputRoom, framed, rfl,
    rfl⟩

private theorem config_start {m : Machine} (bytes : List UInt8) (journal : Journal) :
    (State.start m (.ofBytes bytes) .unlimited journal).config tokens =
      (⟨m.pc, m.tape, m.input.unread ++ tokens.flatten, []⟩ : Config).within m.output.unread [] := by
  simp [State.config, State.start, Config.within, Machine.config, Sink.unlimited]

/-- What a feed shows at its end is what the ideal machine shows where it stops. -/
theorem feeds_iff {m : Machine} {bytes : List UInt8} {journal : Journal}
    (feeding : Feeding k f (State.start m (.ofBytes bytes) .unlimited journal) tokens)
    (r : Report) :
    Feeds f m bytes journal r ↔
      IdealReport k ⟨m.pc, m.tape, m.input.unread ++ tokens.flatten, []⟩ m.count m.output.unread r := by
  constructor
  · rintro ⟨fuel, s, ending, fed, rfl⟩
    obtain ⟨n, c, run, ends, report⟩ := feedWithin_sound feeding fed
    rw [config_start, Code.advance_before, Option.map_eq_some_iff] at run
    obtain ⟨c', run, rfl⟩ := run
    rw [Code.halted_within, Code.blocked_within_nil] at ends
    rw [report]
    exact ⟨n, c', run, ends, rfl, rfl, rfl, rfl⟩
  · rintro ⟨n, c, run, ends, written, pc, tape, count⟩
    have stopped : k.next? (c.within m.output.unread []) = none := by
      rw [Code.next?_eq_none_iff, Code.halted_within, Code.blocked_within_nil]
      exact ends.imp And.right And.right
    have ran := Code.advance_within m.output.unread [] run
    rw [← config_start bytes journal] at ran
    let fuel := n + (State.start m (.ofBytes bytes) .unlimited journal).backlog tokens + 1
    obtain ⟨s, ending, fed⟩ := feedWithin_complete feeding ran stopped
      (show n < fuel by omega) (show _ < fuel by omega)
    refine ⟨fuel, s, ending, fed, ?_⟩
    obtain ⟨n', c', ran', ends', report⟩ := feedWithin_sound feeding fed
    have stopped' : k.next? c' = none := by
      rw [Code.next?_eq_none_iff]
      exact ends'.imp And.right And.right
    obtain ⟨rfl, rfl⟩ := Code.stopped_unique ran stopped ran' stopped'
    rw [Code.halted_within, Code.blocked_within_nil] at ends'
    obtain ⟨rEnding, rWritten, rPc, rTape, rCount⟩ := r
    simp only at written pc tape count ends
    rw [report, written, pc, tape, count]
    have same : rEnding = ending := by
      rcases ends with ⟨rfl, halted⟩ | ⟨rfl, blocked⟩ <;>
        rcases ends' with ⟨rfl, halted'⟩ | ⟨rfl, blocked'⟩
      · rfl
      · exact absurd halted (Code.not_halted_of_blocked blocked')
      · exact absurd halted' (Code.not_halted_of_blocked blocked)
      · rfl
    rw [same]
    rfl

/-- Feeding a machine does what the ideal machine does on the unread input and all tokens. It comes
to its end exactly where the ideal machine stops, and shows the same; so it depends neither on the
capacities of the queues nor on how the input is cut into tokens. Turns that do not end the feed
execute an instruction each, but for as many as there are bytes and tokens to be moved at the start.
-/
theorem feed_refines_ideal (f : Feeder) (m : Machine) (k : Code) (bytes : List UInt8)
    (tokens : List (List UInt8)) (journal : Journal) (reachable : m.Reachable)
    (program : m.program.toList = k.program) (prepared : m.prepared = true)
    (live : m.state ≠ .halted) (untraced : f.tracing = false) (framed : Framed f bytes tokens) :
    let start : Config := ⟨m.pc, m.tape, m.input.unread ++ tokens.flatten, []⟩
    (∀ r, Feeds f m bytes journal r ↔ IdealReport k start m.count m.output.unread r) ∧
    ((∃ r, Feeds f m bytes journal r) ↔
      ∃ n c, k.advance n start = some c ∧ (k.Halted c ∨ k.Blocked c)) ∧
    (∀ (f' : Feeder) (m' : Machine) (bytes' : List UInt8) (tokens' : List (List UInt8))
      (journal' : Journal), m'.Reachable → m'.program = m.program → m'.prepared = true →
      m'.state ≠ .halted → f'.tracing = false → Framed f' bytes' tokens' →
      m'.pc = m.pc → m'.tape = m.tape → m'.count = m.count →
      m'.output.unread = m.output.unread →
      m'.input.unread ++ tokens'.flatten = m.input.unread ++ tokens.flatten →
      ∀ r, Feeds f' m' bytes' journal' r ↔ Feeds f m bytes journal r) ∧
    ∀ fuel turns s, Turns f fuel turns (State.start m (.ofBytes bytes) .unlimited journal) s →
      ∃ n c, k.advance n start = some c ∧ s.machine.pc = c.pc ∧ s.machine.tape = c.tape ∧
        s.machine.count = m.count + Int64.ofNat n ∧
        turns ≤ n + tokens.flatten.length + tokens.length + m.output.length := by
  intro start
  have feeding := feeding_start journal reachable program prepared live untraced framed
  refine ⟨feeds_iff feeding, ?_, ?_, ?_⟩
  · constructor
    · rintro ⟨r, fed⟩
      obtain ⟨n, c, run, ends, _⟩ := (feeds_iff feeding r).mp fed
      exact ⟨n, c, run, ends.imp And.right And.right⟩
    · rintro ⟨n, c, run, halted | blocked⟩
      · have ideal : IdealReport k start m.count m.output.unread
            ⟨.halted, m.output.unread ++ c.output, c.pc, c.tape, m.count + Int64.ofNat n⟩ :=
          ⟨n, c, run, Or.inl ⟨rfl, halted⟩, rfl, rfl, rfl, rfl⟩
        exact ⟨_, (feeds_iff feeding _).mpr ideal⟩
      · have ideal : IdealReport k start m.count m.output.unread
            ⟨.inputEnded, m.output.unread ++ c.output, c.pc, c.tape, m.count + Int64.ofNat n⟩ :=
          ⟨n, c, run, Or.inr ⟨rfl, blocked⟩, rfl, rfl, rfl, rfl⟩
        exact ⟨_, (feeds_iff feeding _).mpr ideal⟩
  · intro f' m' bytes' tokens' journal' reachable' program' prepared' live' untraced' framed'
      pc tape count output input r
    have same : m'.program.toList = k.program := by rw [program', program]
    have feeding' := feeding_start journal' reachable' same prepared' live' untraced' framed'
    rw [feeds_iff feeding', feeds_iff feeding, pc, tape, count, output, input]
  · intro fuel turns s went
    obtain ⟨n, tokens', _, run, count, bound⟩ := turns_progress feeding went
    rw [config_start, Code.advance_before, Option.map_eq_some_iff] at run
    obtain ⟨c, run, same⟩ := run
    have pc : c.pc = s.machine.pc := congrArg Config.pc same
    have tape : c.tape = s.machine.tape := congrArg Config.tape same
    refine ⟨n, c, run, pc.symm, tape.symm, count, ?_⟩
    simp only [State.backlog, State.start, List.nil_append] at bound
    omega

/-- All of the input is one token, with a line feed inside, and is echoed through queues of one byte. -/
theorem feed_echo : ∃ m : Machine,
    (Request.prepare [44, 91, 46, 44, 93]).perform
      (Machine.ofSizes ⟨1, 1, 1, by decide, by decide, by decide⟩) = some (m, .done) ∧
    Feeds { split := fun _ input => if input.isEmpty then .ended else .token input [], frame := .raw } m
      [97, 10, 98] .unlimited ⟨.inputEnded, [97, 10, 98], 3, ⟨#[98], 0, by decide⟩, 9⟩ := by
  refine ⟨_, rfl, ?_⟩
  let f : Feeder :=
    { split := fun _ input => if input.isEmpty then .ended else .token input [], frame := .raw }
  have framed : Framed f [97, 10, 98] [[97, 10, 98]] := .token rfl rfl (.ended rfl)
  refine ((feed_refines_ideal f _ ⟨[44, 91, 46, 44, 93], _, rfl⟩ _ _ .unlimited
    ?_ ?_ ?_ ?_ rfl framed).1 _).mpr ?_
  · exact ⟨[(.cells, 1), (.input, 1), (.output, 1)], _, rfl,
      .request (r := .prepare [44, 91, 46, 44, 93]) .refl trivial rfl⟩
  · rfl
  · rfl
  · decide
  · exact ⟨9, ⟨3, ⟨#[98], 0, by decide⟩, [], [97, 10, 98]⟩, by decide +kernel⟩

end TapeMachine.Feed
