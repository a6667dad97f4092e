import TapeMachine.Proofs.Feeding
import TapeMachine.Proofs.Alike
/-!
# Turns of a feed

Without a trace, and with a sink that accepts everything, a turn runs the machine, moves its output to
the sink and then does what the run asks for. What it does depends neither on the journal nor on what
the sink has accepted before, nor on where in its storage a queue has its bytes; nor on the fuel, once
there is enough of it. To the machine itself it does no more than calls do. What a fetch and the rest
of a turn can come to is told once, and what feeds do follows by these cases.
-/

set_option autoImplicit false
set_option relaxedAutoImplicit false

namespace TapeMachine.Feed

def State.flushed (s : State) (m : Machine) : State :=
  match flush m.output s.output with
  | (queue, sink, _) => ⟨{ m with output := queue }, s.pending, s.input, sink, s.journal⟩

/-- What a turn does once the output of the run has been moved, by the error of the run. -/
def conclude (f : Feeder) (s : State) : Option RunError → Turn
  | some (.outputFull _ _) =>
    .again { s with journal := s.journal.log (event s.machine "output buffer full") }
  | some error => .done s (.failed (.run error))
  | none =>
    if s.machine.isWaiting then
      if s.pending.isEmpty then fetch f s else give s
    else .done { s with journal := s.journal.log (event s.machine "halted") } .halted

def Turn.state : Turn → State
  | .again s => s
  | .done s _ => s

/-- The feed with one more record in its journal. -/
def State.told (s : State) (message : String) : State :=
  { s with journal := s.journal.log (event s.machine message) }

/-- What fetching a token comes to. -/
inductive Fetches (f : Feeder) (s : State) (t : Turn) : Prop
  | failed {error : Error} (cause : error = .tooLong ∨ ∃ fault, error = .input fault)
      (stops : t = .done (s.told "waiting for input") (.failed error)) : Fetches f s t
  | ended (nothing : f.scan s.input.bytes = .ended) (intact : s.input.fault = none)
      (stops : t = .done ((s.told "waiting for input").told "end of input") .inputEnded) :
      Fetches f s t
  | refused {token rest : List UInt8} {error : FrameError}
      (next : f.scan s.input.bytes = .token token rest) (refuses : f.frame token = .error error)
      (stops : t = .done { (s.told "waiting for input").told "end of input" with
        input := { s.input with bytes := rest } } error.ending) : Fetches f s t
  | framed {token rest framed : List UInt8} (next : f.scan s.input.bytes = .token token rest)
      (applied : f.frame token = .ok framed)
      (goes : t = give { s.told "waiting for input" with
        pending := framed, input := { s.input with bytes := rest } }) : Fetches f s t

/-- What a turn comes to once the output of the run has been moved. -/
inductive Concludes (f : Feeder) (s : State) (error : Option RunError) (t : Turn) : Prop
  | emptied (full : ∃ c pc, error = some (.outputFull c pc))
      (again : t = .again (s.told "output buffer full")) : Concludes f s error t
  | failed {cause : RunError} (failed : error = some cause)
      (stops : t = .done s (.failed (.run cause))) : Concludes f s error t
  | fetched (fine : error = none) (waiting : s.machine.state = .waiting) (spent : s.pending = [])
      (goes : t = fetch f s) : Concludes f s error t
  | given (fine : error = none) (waiting : s.machine.state = .waiting) (left : s.pending ≠ [])
      (goes : t = give s) : Concludes f s error t
  | halted (fine : error = none) (onward : s.machine.state ≠ .waiting)
      (stops : t = .done (s.told "halted") .halted) : Concludes f s error t

variable {f : Feeder} {s s' : State}

theorem fetches (f : Feeder) (s : State) : Fetches f s (fetch f s) := by
  generalize fetched : fetch f s = t
  simp only [fetch] at fetched
  split at fetched
  · exact .failed (Or.inl rfl) fetched.symm
  case h_2 fault _ => exact .failed (Or.inr ⟨fault, rfl⟩) fetched.symm
  case h_3 nothing =>
    split at fetched
    case h_1 fault _ => exact .failed (Or.inr ⟨fault, rfl⟩) fetched.symm
    case h_2 intact => exact .ended nothing intact fetched.symm
  case h_4 token rest next =>
    split at fetched
    case h_1 refuses => exact .refused next refuses fetched.symm
    case h_2 applied => exact .framed next applied fetched.symm

theorem conclude_of_waiting (waiting : s.machine.state = .waiting) (spent : s.pending = []) :
    conclude f s none = fetch f s := by
  simp [conclude, Machine.isWaiting, waiting, spent]

theorem conclude_of_pending (waiting : s.machine.state = .waiting) (left : s.pending ≠ []) :
    conclude f s none = give s := by
  simp [conclude, Machine.isWaiting, waiting, left]

theorem conclude_of_onward (onward : s.machine.state ≠ .waiting) :
    conclude f s none = .done (s.told "halted") .halted := by
  simp [conclude, Machine.isWaiting, onward, State.told]

theorem concludes (f : Feeder) (s : State) (error : Option RunError) :
    Concludes f s error (conclude f s error) := by
  rcases error with _ | _ | _ | ⟨c, pc⟩
  · by_cases waiting : s.machine.state = .waiting
    · by_cases spent : s.pending = []
      · exact .fetched rfl waiting spent (conclude_of_waiting waiting spent)
      · exact .given rfl waiting spent (conclude_of_pending waiting spent)
    · exact .halted rfl waiting (conclude_of_onward waiting)
  · exact .failed rfl rfl
  · exact .failed rfl rfl
  · exact .emptied ⟨c, pc, rfl⟩ rfl

theorem flushed_eq (unlimited : s.output.room = none) (m : Machine) :
    ∃ queue sink, s.flushed m = ⟨{ m with output := queue }, s.pending, s.input, sink, s.journal⟩ ∧
      queue.unread = [] ∧ queue.capacity = m.output.capacity ∧ sink.room = none ∧
      sink.accepted.toList = s.output.accepted.toList ++ m.output.unread := by
  obtain ⟨queue, sink, flushes, drained, capacity, room, accepted⟩ :=
    flush_unlimited m.output s.output unlimited
  exact ⟨queue, sink, by rw [State.flushed, flushes], drained, capacity, room, accepted⟩

theorem flushed_of_nil (s : State) {m : Machine} (empty : m.output.unread = []) :
    s.flushed m = { s with machine := m } := by
  have none_left : ¬ m.output.hasUnread = true := fun some_left =>
    m.output.hasUnread_iff.mp some_left empty
  rw [State.flushed, flush, dif_neg none_left]

theorem turn_eq (untraced : f.tracing = false) (unlimited : s.output.room = none) (fuel : Nat) :
    turn f fuel s =
      (s.machine.run fuel).map fun out => conclude f (s.flushed out.machine) out.error := by
  obtain ⟨m, pending, input, output, journal⟩ := s
  unfold turn runMachine
  simp only [untraced, Bool.false_eq_true, if_false]
  cases m.run fuel with
  | none => rfl
  | some out =>
      obtain ⟨m', error⟩ := out
      -- The sink does not fail, so that only the error of the run decides.
      obtain ⟨queue, sink, flushes, _⟩ := flush_unlimited m'.output output unlimited
      simp only [flushes, Option.map_some, State.flushed]
      rcases error with _ | _ | _ | _
      · simp only [Option.map_none, conclude]
        split
        · split <;> rfl
        · rfl
      all_goals rfl

/-- Two turns that end in the same way, in related states. -/
inductive Turn.Rel (related : State → State → Prop) : Turn → Turn → Prop
  | again {s s' : State} (now : related s s') : Rel related (.again s) (.again s')
  | done {s s' : State} (last : related s s') (ending : Ending) :
      Rel related (.done s ending) (.done s' ending)

theorem Turn.Rel.refl (t : Turn) : Turn.Rel Eq t t := by
  cases t with
  | again s => exact .again rfl
  | done s ending => exact .done rfl ending

theorem Turn.Rel.flip {related related' : State → State → Prop} {t t' : Turn}
    (rel : Turn.Rel related t t') (swap : ∀ s s', related s s' → related' s' s) :
    Turn.Rel related' t' t := by
  cases rel with
  | again now => exact .again (swap _ _ now)
  | done last ending => exact .done (swap _ _ last) ending

section Fuel

variable {fuel fuel' turns turns' : Nat}

/-- If every turn of a feed has a counterpart in another feed, then so has the whole feed. -/
theorem feedWithin_of_rel {f' : Feeder} {related : State → State → Prop} {e : State}
    {ending : Ending}
    (each : ∀ s s' t, related s s' → turn f fuel s = some t →
      ∃ t', turn f' fuel' s' = some t' ∧ Turn.Rel related t t')
    (start : related s s') (fed : feedWithin f fuel turns s = some (e, ending))
    (more : turns ≤ turns') :
    ∃ e', feedWithin f' fuel' turns' s' = some (e', ending) ∧ related e e' := by
  induction turns generalizing s s' turns' with
  | zero => simp [feedWithin] at fed
  | succ turns ih =>
      obtain ⟨turns', rfl⟩ : ∃ n, turns' = n + 1 := ⟨turns' - 1, by omega⟩
      rw [feedWithin] at fed ⊢
      cases turned : turn f fuel s with
      | none => simp [turned] at fed
      | some t =>
          obtain ⟨t', turned', same⟩ := each s s' t start turned
          rw [turned] at fed
          rw [turned']
          cases same with
          | again now => exact ih now fed (Nat.le_of_succ_le_succ more)
          | done last ending' =>
              simp only [Option.some.injEq, Prod.mk.injEq] at fed
              obtain ⟨rfl, rfl⟩ := fed
              exact ⟨_, rfl, last⟩

private theorem runTraced_mono {m : Machine} {j : Journal} {ran : Ran}
    (driven : runTraced fuel m j = some ran) (more : fuel ≤ fuel') :
    runTraced fuel' m j = some ran := by
  induction fuel generalizing m j fuel' with
  | zero => cases driven
  | succ fuel ih =>
      obtain ⟨fuel', rfl⟩ : ∃ n, fuel' = n + 1 := ⟨fuel' - 1, by omega⟩
      simp only [runTraced] at driven ⊢
      split at driven
      · exact driven
      · split at driven
        · cases driven
        · exact driven
        · split at driven
          case isTrue running =>
            rw [if_pos running]
            exact ih driven (Nat.le_of_succ_le_succ more)
          case isFalse stopped =>
            rw [if_neg stopped]
            exact driven

theorem runMachine_mono {tracing : Bool} {m : Machine} {j : Journal} {ran : Ran}
    (driven : runMachine tracing fuel m j = some ran) (more : fuel ≤ fuel') :
    runMachine tracing fuel' m j = some ran := by
  unfold runMachine at driven ⊢
  cases tracing with
  | true => exact runTraced_mono driven more
  | false =>
      simp only [Bool.false_eq_true, if_false] at driven ⊢
      cases ran' : m.run fuel with
      | none => simp [ran'] at driven
      | some out =>
          have longer : m.run fuel' = some out := Machine.runWithin_mono ran' more
          simpa only [ran', longer] using driven

theorem turn_mono {t : Turn} (turned : turn f fuel s = some t) (more : fuel ≤ fuel') :
    turn f fuel' s = some t := by
  unfold turn at turned ⊢
  cases driven : runMachine f.tracing fuel s.machine s.journal with
  | none => simp [driven] at turned
  | some ran =>
      have longer := runMachine_mono driven more
      simpa only [driven, longer] using turned

theorem feedWithin_mono {e : State × Ending} (fed : feedWithin f fuel turns s = some e)
    (more : fuel ≤ fuel') (moreTurns : turns ≤ turns') : feedWithin f fuel' turns' s = some e := by
  have each (s s' : State) (t : Turn) (same : s = s') (turned : turn f fuel s = some t) :
      ∃ t', turn f fuel' s' = some t' ∧ Turn.Rel Eq t t' := by
    subst same
    exact ⟨t, turn_mono turned more, .refl t⟩
  obtain ⟨e', fed', rfl⟩ := feedWithin_of_rel each rfl fed moreTurns
  exact fed'

theorem feed_unique {e e' : State × Ending} (first : feed f fuel s = some e)
    (second : feed f fuel' s = some e') : e = e' := by
  have more := Nat.le_max_left fuel fuel'
  have more' := Nat.le_max_right fuel fuel'
  have longer := feedWithin_mono first more more
  have longer' := feedWithin_mono second more' more'
  rw [longer] at longer'
  exact Option.some.inj longer'

end Fuel

/-- A feed that does the same as another but for its journal, after `before` has been accepted. -/
structure State.Follows (before : List UInt8) (s s' : State) : Prop where
  machine : s.machine.Alike s'.machine
  pending : s.pending = s'.pending
  input : s.input = s'.input
  accepted : s.output.accepted.toList = before ++ s'.output.accepted.toList
  room : s.output.room = none
  room' : s'.output.room = none

inductive Turn.Follows (before : List UInt8) : Turn → Turn → Prop
  | again {s s' : State} (follows : s.Follows before s') : Follows before (.again s) (.again s')
  | done {s s' : State} (follows : s.Follows before s') (ending : Ending) :
      Follows before (.done s ending) (.done s' ending)

def EndsAlike (before : List UInt8) (e e' : State × Ending) : Prop :=
  e.1.Follows before e'.1 ∧ e.2 = e'.2

section Follows

variable {before : List UInt8}

private theorem State.Follows.give (follows : s.Follows before s') : (give s).Follows before
    (give s') := by
  obtain ⟨m, pending, input, output, journal⟩ := s
  obtain ⟨m', pending', input', output', journal'⟩ := s'
  obtain ⟨alike, rfl, rfl, accepted, room, room'⟩ := follows
  obtain ⟨k, k', count, refusal, done, done', after⟩ :=
    alike.writeInput (pending.take m.input.capacity)
  have capacity : m.input.capacity = m'.input.capacity := alike.input.capacity
  simp only at done done'
  simp only [Feed.give, ← capacity, done, done']
  exact .again ⟨after, rfl, rfl, accepted, room, room'⟩

theorem State.Follows.fetch (follows : s.Follows before s') :
    (fetch f s).Follows before (fetch f s') := by
  obtain ⟨m, pending, input, output, journal⟩ := s
  obtain ⟨m', pending', input', output', journal'⟩ := s'
  obtain ⟨alike, rfl, rfl, accepted, room, room'⟩ := follows
  -- Whatever is read, both feeds have read it.
  have after (pending : List UInt8) (input : Source) (j j' : Journal) : State.Follows before
      ⟨m, pending, input, output, j⟩ ⟨m', pending, input, output', j'⟩ :=
    ⟨alike, rfl, rfl, accepted, room, room'⟩
  simp only [Feed.fetch]
  split
  · exact .done (after _ _ _ _) _
  · exact .done (after _ _ _ _) _
  · split
    · exact .done (after _ _ _ _) _
    · exact .done (after _ _ _ _) _
  · split
    · exact .done (after _ _ _ _) _
    · exact (after _ _ _ _).give

private theorem State.Follows.conclude (follows : s.Follows before s') (error : Option RunError) :
    (conclude f s error).Follows before (conclude f s' error) := by
  have logged (record record' : Log.Record) : State.Follows before
      { s with journal := s.journal.log record } { s' with journal := s'.journal.log record' } :=
    ⟨follows.machine, follows.pending, follows.input, follows.accepted, follows.room, follows.room'⟩
  rcases error with _ | _ | _ | _
  · have waits : s.machine.isWaiting = s'.machine.isWaiting := by
      rw [Machine.isWaiting, Machine.isWaiting, follows.machine.state]
    have spent : s.pending.isEmpty = s'.pending.isEmpty := by rw [follows.pending]
    simp only [Feed.conclude, waits, spent]
    split
    · split
      · exact follows.fetch
      · exact follows.give
    · exact .done (logged _ _) _
  · exact .done follows _
  · exact .done follows _
  · exact .again (logged _ _)

private theorem State.Follows.flushed (follows : s.Follows before s') {m m' : Machine}
    (alike : m.Alike m') :
    (s.flushed m).Follows before (s'.flushed m') := by
  obtain ⟨queue, sink, same, drained, capacity, room, accepted⟩ := flushed_eq follows.room m
  obtain ⟨queue', sink', same', drained', capacity', room', accepted'⟩ := flushed_eq follows.room' m'
  rw [same, same']
  have queues : queue.Alike queue' := by
    refine ⟨?_, ?_⟩
    · rw [capacity, capacity', alike.output.capacity]
    · rw [drained, drained']
  refine ⟨{ alike with output := queues }, follows.pending, follows.input, ?_, room, room'⟩
  rw [accepted, accepted', follows.accepted, alike.output.unread, List.append_assoc]

theorem State.Follows.turn (follows : s.Follows before s') (untraced : f.tracing = false)
    (fuel : Nat) : Option.Rel (Turn.Follows before) (turn f fuel s) (turn f fuel s') := by
  rw [turn_eq untraced follows.room, turn_eq untraced follows.room']
  have runs := follows.machine.runWithin .unbounded fuel
  unfold Machine.run
  generalize s.machine.runWithin .unbounded fuel = out at runs ⊢
  generalize s'.machine.runWithin .unbounded fuel = out' at runs ⊢
  cases runs with
  | none => exact .none
  | @some out out' same =>
      have concluded := (follows.flushed same.machine).conclude (f := f) out.error
      rw [Option.map_some, Option.map_some, ← same.error]
      exact .some concluded

theorem State.Follows.feedWithin (follows : s.Follows before s') (untraced : f.tracing = false)
    (fuel turns : Nat) :
    Option.Rel (EndsAlike before) (feedWithin f fuel turns s) (feedWithin f fuel turns s') := by
  induction turns generalizing s s' with
  | zero => exact .none
  | succ turns ih =>
      have turned := follows.turn untraced fuel
      rw [Feed.feedWithin, Feed.feedWithin]
      generalize Feed.turn f fuel s = t at turned ⊢
      generalize Feed.turn f fuel s' = t' at turned ⊢
      cases turned with
      | none => exact .none
      | some same =>
          cases same with
          | again after => exact ih after
          | done after ending => exact .some ⟨after, rfl⟩

end Follows

structure Turn.Accepts (t : Turn) (s : State) : Prop where
  machine : ∃ accepted, Call.Does s.machine accepted [] 0 t.state.machine
  output : t.state.output = s.output

theorem give_accepts (s : State) : (give s).Accepts s := by
  obtain ⟨m, pending, input, output, journal⟩ := s
  obtain ⟨queue, written, unread, capacity⟩ := m.writeInput_eq (pending.take m.input.capacity)
  simp only [give, written]
  exact ⟨⟨_, .accepts unread capacity⟩, rfl⟩

private theorem fetch_accepts (f : Feeder) (s : State) : (fetch f s).Accepts s := by
  cases fetches f s with
  | failed _ stops | ended _ _ stops | refused _ _ stops =>
      rw [stops]
      exact ⟨⟨[], .nothing⟩, rfl⟩
  | @framed token rest framed _ _ goes =>
      rw [goes]
      have given := give_accepts { s.told "waiting for input" with
        pending := framed, input := { s.input with bytes := rest } }
      exact ⟨given.machine, given.output⟩

theorem conclude_accepts (f : Feeder) (s : State) (error : Option RunError) :
    (conclude f s error).Accepts s := by
  cases concludes f s error with
  | emptied _ again =>
      rw [again]
      exact ⟨⟨[], .nothing⟩, rfl⟩
  | failed _ stops | halted _ _ stops =>
      rw [stops]
      exact ⟨⟨[], .nothing⟩, rfl⟩
  | fetched _ _ _ goes =>
      rw [goes]
      exact fetch_accepts f s
  | given _ _ _ goes =>
      rw [goes]
      exact give_accepts s

private theorem flushed_gives (unlimited : s.output.room = none) (m : Machine) :
    Call.Does m [] m.output.unread 0 (s.flushed m).machine ∧ (s.flushed m).output.room = none := by
  obtain ⟨queue, sink, same, drained, capacity, room, _⟩ := flushed_eq unlimited m
  have taken : m.output.unread ++ queue.unread = m.output.unread := by rw [drained, List.append_nil]
  rw [same]
  exact ⟨.gives taken capacity, room⟩

/-- What calls keep of a machine. -/
structure Keeps (start m : Machine) : Prop where
  frame : start.SameFrame m
  consistent : m.Consistent
  settled : m.Settled

section Keeps

variable {start m : Machine}

private theorem Keeps.called {m' : Machine} {accepted taken : List UInt8} {executed : Nat}
    (keeps : Keeps start m) (does : Call.Does m accepted taken executed m') : Keeps start m' :=
  ⟨keeps.frame.trans does.sameFrame, keeps.consistent.called does,
    keeps.settled.called keeps.consistent does⟩

theorem Keeps.turn {fuel : Nat} {t : Turn} (keeps : Keeps start s.machine)
    (untraced : f.tracing = false) (unlimited : s.output.room = none)
    (turned : turn f fuel s = some t) :
    Keeps start t.state.machine ∧ t.state.output.room = none := by
  rw [turn_eq untraced unlimited, Option.map_eq_some_iff] at turned
  obtain ⟨out, ran, rfl⟩ := turned
  obtain ⟨gives, room⟩ := flushed_gives unlimited out.machine
  obtain ⟨⟨accepted, accepts⟩, output⟩ := conclude_accepts f (s.flushed out.machine) out.error
  refine ⟨((keeps.called (.runs ran)).called gives).called accepts, ?_⟩
  rw [output]
  exact room

end Keeps

end TapeMachine.Feed
