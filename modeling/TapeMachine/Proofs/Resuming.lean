import TapeMachine.Proofs.Splitting
import TapeMachine.Proofs.Turns
import TapeMachine.Proofs.Snapshot
/-!
# Resuming a feed

A feed that has come to the end of its input can be stopped there: the machine waits, and no byte is
left between the source and the machine or between the machine and the sink. So an image of the
machine is all that is needed to go on, and it makes no difference whether more input follows at once
or is fed to the restored machine.
-/

set_option autoImplicit false
set_option relaxedAutoImplicit false

namespace TapeMachine.Feed

def State.more (s : State) (bytes : List UInt8) : State :=
  { s with input := { s.input with bytes := s.input.bytes ++ bytes } }

/-- The machine waits, and all that has been read and written has arrived. -/
structure State.Exhausted (s : State) : Prop where
  waiting : s.machine.state = .waiting
  pending : s.pending = []
  input : s.input = .ofBytes []
  output : s.machine.output.unread = []

section More

variable {f : Feeder} {s s' e : State} {fuel : Nat}

private theorem fetch_more (whole : f.split.Whole s.input.bytes) (fetched : fetch f s = .again s')
    (bytes : List UInt8) :
    fetch f (s.more bytes) = .again (s'.more bytes) ∧ f.split.Whole s'.input.bytes := by
  have fetches := fetches f s
  rw [fetched] at fetches
  cases fetches with
  | failed _ stops | ended _ _ stops | refused _ _ stops => cases stops
  | framed next applied goes =>
      obtain ⟨again, later⟩ := whole.append next bytes
      simp only [fetch, State.more, Feeder.scan, again, applied]
      cases goes
      exact ⟨rfl, later⟩

private theorem conclude_more {error : Option RunError} (whole : f.split.Whole s.input.bytes)
    (concluded : conclude f s error = .again s') (bytes : List UInt8) :
    conclude f (s.more bytes) error = .again (s'.more bytes) ∧ f.split.Whole s'.input.bytes := by
  have concludes := concludes f s error
  rw [concluded] at concludes
  cases concludes with
  | emptied full again =>
      obtain ⟨c, pc, rfl⟩ := full
      cases again
      exact ⟨rfl, whole⟩
  | failed _ stops | halted _ _ stops => cases stops
  | fetched fine waiting spent goes =>
      obtain ⟨again, later⟩ := fetch_more whole goes.symm bytes
      rw [fine, conclude_of_waiting (s := s.more bytes) waiting spent]
      exact ⟨again, later⟩
  | given fine waiting left goes =>
      rw [fine, conclude_of_pending (s := s.more bytes) waiting left]
      cases goes
      exact ⟨rfl, whole⟩

theorem turn_more (untraced : f.tracing = false) (unlimited : s.output.room = none)
    (whole : f.split.Whole s.input.bytes) (turned : turn f fuel s = some (.again s'))
    (bytes : List UInt8) :
    turn f fuel (s.more bytes) = some (.again (s'.more bytes)) ∧ f.split.Whole s'.input.bytes := by
  rw [turn_eq untraced unlimited, Option.map_eq_some_iff] at turned
  obtain ⟨out, ran, concluded⟩ := turned
  obtain ⟨again, later⟩ := conclude_more (s := s.flushed out.machine) whole concluded bytes
  refine ⟨?_, later⟩
  rw [turn_eq (s := s.more bytes) untraced unlimited, Option.map_eq_some_iff]
  exact ⟨out, ran, again⟩

private theorem fetch_inputEnded (unending : ∀ token, f.frame token ≠ .error .inputEnded)
    (whole : f.split.Whole s.input.bytes) (fetched : fetch f s = .done e .inputEnded) :
    s.input = .ofBytes [] ∧ ∃ journal, e = { s with journal := journal } := by
  have fetches := fetches f s
  rw [fetched] at fetches
  cases fetches with
  | failed _ stops => cases stops
  | ended nothing intact stops =>
      cases stops
      obtain ⟨m, pending, ⟨bytes, fault⟩, output, journal⟩ := s
      obtain rfl : bytes = [] := whole.of_ended nothing
      obtain rfl : fault = none := intact
      exact ⟨rfl, _, rfl⟩
  | @refused token _ error _ refuses stops =>
      cases error with
      | inputEnded => exact absurd refuses (unending token)
      | failed fault => cases stops
  | framed _ _ goes => cases goes

private theorem conclude_inputEnded {error : Option RunError}
    (unending : ∀ token, f.frame token ≠ .error .inputEnded)
    (whole : f.split.Whole s.input.bytes) (concluded : conclude f s error = .done e .inputEnded) :
    error = none ∧ s.machine.state = .waiting ∧ s.pending = [] ∧ s.input = .ofBytes [] ∧
      ∃ journal, e = { s with journal := journal } := by
  have concludes := concludes f s error
  rw [concluded] at concludes
  cases concludes with
  | emptied _ again => cases again
  | failed _ stops | halted _ _ stops => cases stops
  | fetched fine waiting spent goes =>
      exact ⟨fine, waiting, spent, fetch_inputEnded unending whole goes.symm⟩
  | given _ _ _ goes => cases goes

private theorem turn_inputEnded (untraced : f.tracing = false)
    (unending : ∀ token, f.frame token ≠ .error .inputEnded) (unlimited : s.output.room = none)
    (whole : f.split.Whole s.input.bytes) (turned : turn f fuel s = some (.done e .inputEnded)) :
    e.Exhausted ∧ ∀ bytes,
      turn f fuel (s.more bytes) = some (fetch f { e.more bytes with journal := s.journal }) := by
  rw [turn_eq untraced unlimited, Option.map_eq_some_iff] at turned
  obtain ⟨⟨m, error⟩, ran, concluded⟩ := turned
  obtain ⟨queue, sink, same, drained, _⟩ := flushed_eq unlimited m
  obtain ⟨rfl, waiting, spent, nothing, journal, rfl⟩ :=
    conclude_inputEnded (s := s.flushed m) unending whole concluded
  refine ⟨⟨waiting, spent, nothing, ?_⟩, fun bytes => ?_⟩
  · rw [same]
    exact drained
  · rw [turn_eq (s := s.more bytes) untraced unlimited, Option.map_eq_some_iff]
    exact ⟨_, ran, conclude_of_waiting (s := (s.flushed m).more bytes) waiting spent⟩

private theorem State.Exhausted.turn (exhausted : e.Exhausted) (untraced : f.tracing = false)
    (unlimited : e.output.room = none) (consistent : e.machine.Consistent)
    (settled : e.machine.Settled) (prepared : e.machine.prepared = true) (fuel : Nat)
    (bytes : List UInt8) : turn f (fuel + 1) (e.more bytes) = some (fetch f (e.more bytes)) := by
  have ran := consistent.run_of_waiting settled prepared exhausted.waiting fuel
  rw [turn_eq (s := e.more bytes) untraced unlimited, Option.map_eq_some_iff]
  refine ⟨_, ran, ?_⟩
  rw [flushed_of_nil _ exhausted.output]
  exact conclude_of_waiting (s := e.more bytes) exhausted.waiting exhausted.pending

theorem feedWithin_more {start : Machine} {turns : Nat} (untraced : f.tracing = false)
    (unending : ∀ token, f.frame token ≠ .error .inputEnded) (prepared : start.prepared = true)
    (keeps : Keeps start s.machine) (unlimited : s.output.room = none)
    (whole : f.split.Whole s.input.bytes)
    (fed : feedWithin f (fuel + 1) turns s = some (e, .inputEnded)) :
    (Keeps start e.machine ∧ e.output.room = none ∧ e.Exhausted) ∧
      ∃ used, ∀ bytes later, Option.Rel (EndsAlike [])
        (feedWithin f (fuel + 1) (used + later) (s.more bytes))
        (feedWithin f (fuel + 1) later (e.more bytes)) := by
  induction turns generalizing s with
  | zero => simp [feedWithin] at fed
  | succ turns ih =>
      rw [feedWithin] at fed
      cases turned : turn f (fuel + 1) s with
      | none => simp [turned] at fed
      | some t =>
          obtain ⟨kept, room⟩ := keeps.turn untraced unlimited turned
          rw [turned] at fed
          cases t with
          | again s₁ =>
              have further (bytes : List UInt8) := turn_more untraced unlimited whole turned bytes
              obtain ⟨left, used, same⟩ := ih kept room (further []).2 fed
              refine ⟨left, used + 1, fun bytes later => ?_⟩
              rw [Nat.add_right_comm, feedWithin, (further bytes).1]
              exact same bytes later
          | done s₁ ending =>
              simp only [Option.some.injEq, Prod.mk.injEq] at fed
              obtain ⟨rfl, rfl⟩ := fed
              obtain ⟨exhausted, further⟩ := turn_inputEnded untraced unending unlimited whole turned
              -- The last turn of the one feed and the first of the other both go on to fetch from
              -- `bytes`, in states that differ in their journals only.
              refine ⟨⟨kept, room, exhausted⟩, 0, fun bytes later => ?_⟩
              rw [Nat.zero_add]
              cases later with
              | zero => exact .none
              | succ later =>
                  have resumed := exhausted.turn untraced room kept.consistent kept.settled
                    (kept.frame.prepared.trans prepared) fuel bytes
                  have follows : State.Follows [] { s₁.more bytes with journal := s.journal }
                      (s₁.more bytes) := ⟨.refl _, rfl, rfl, rfl, room, room⟩
                  have fetched := follows.fetch (f := f)
                  rw [feedWithin, feedWithin, further bytes, resumed]
                  generalize fetch f { s₁.more bytes with journal := s.journal } = t at fetched ⊢
                  generalize fetch f (s₁.more bytes) = t' at fetched ⊢
                  cases fetched with
                  | again after => exact after.feedWithin untraced (fuel + 1) later
                  | done after ending => exact .some ⟨after, rfl⟩

end More

/-- How a feed has ended, all that has been written, and what can be seen of the machine. -/
structure Finish where
  ending : Ending
  written : List UInt8
  machine : Observation

def finish (e : State × Ending) : Finish :=
  ⟨e.2, e.1.output.accepted.toList, e.1.machine.observation⟩

def Finish.after (before : List UInt8) (r : Finish) : Finish :=
  { r with written := before ++ r.written }

/-- A feed comes to its end. -/
def State.Finishes (s : State) (f : Feeder) (r : Finish) : Prop :=
  ∃ fuel, (feed f fuel s).map finish = some r

section Finish

variable {f : Feeder} {s s' e : State} {before : List UInt8} {fuel turns : Nat} {r : Finish}

private theorem map_finish_of_rel {o o' : Option (State × Ending)}
    (same : Option.Rel (EndsAlike before) o o') :
    o.map finish = (o'.map finish).map (Finish.after before) := by
  cases same with
  | none => rfl
  | some alike =>
      obtain ⟨after, ending⟩ := alike
      simp only [Option.map_some, finish, Finish.after, after.accepted, after.machine.observation,
        ending]

private theorem map_finish_mono {fuel' turns' : Nat}
    (ended : (feedWithin f fuel turns s).map finish = some r) (more : fuel ≤ fuel')
    (moreTurns : turns ≤ turns') : (feedWithin f fuel' turns' s).map finish = some r := by
  obtain ⟨e, fed, rfl⟩ := Option.map_eq_some_iff.mp ended
  rw [feedWithin_mono fed more moreTurns]
  rfl

theorem finishes_iff_feedWithin :
    s.Finishes f r ↔ ∃ fuel turns, (feedWithin f fuel turns s).map finish = some r := by
  constructor
  · rintro ⟨fuel, ended⟩
    exact ⟨fuel, fuel, ended⟩
  · rintro ⟨fuel, turns, ended⟩
    exact ⟨max fuel turns, map_finish_mono ended (Nat.le_max_left _ _) (Nat.le_max_right _ _)⟩

private theorem State.Follows.finishes_iff (follows : s.Follows before s')
    (untraced : f.tracing = false) :
    s.Finishes f r ↔ ∃ r', s'.Finishes f r' ∧ r = r'.after before := by
  have same (fuel : Nat) := map_finish_of_rel (follows.feedWithin untraced fuel fuel)
  constructor
  · rintro ⟨fuel, ended⟩
    rw [feed, same fuel] at ended
    obtain ⟨r', ended', rfl⟩ := Option.map_eq_some_iff.mp ended
    exact ⟨r', ⟨fuel, ended'⟩, rfl⟩
  · rintro ⟨r', ⟨fuel, ended⟩, rfl⟩
    rw [feed] at ended
    refine ⟨fuel, ?_⟩
    rw [feed, same fuel, ended]
    rfl

private theorem State.Follows.finishes_iff_of_nil (follows : s.Follows [] s')
    (untraced : f.tracing = false) :
    s.Finishes f r ↔ s'.Finishes f r := by
  rw [follows.finishes_iff untraced]
  constructor
  · rintro ⟨r', ended, rfl⟩
    exact ended
  · intro ended
    exact ⟨r, ended, rfl⟩

theorem finishes_more_iff {start : Machine} (untraced : f.tracing = false)
    (unending : ∀ token, f.frame token ≠ .error .inputEnded) (prepared : start.prepared = true)
    (keeps : Keeps start s.machine) (unlimited : s.output.room = none)
    (whole : f.split.Whole s.input.bytes) (fed : feedWithin f fuel turns s = some (e, .inputEnded))
    (bytes : List UInt8) : (s.more bytes).Finishes f r ↔ (e.more bytes).Finishes f r := by
  -- The fuel is that of the longer of the two feeds, so that neither runs out of it.
  have same (n : Nat) (enough : fuel ≤ n + 1) : ∃ used, ∀ later,
      (feedWithin f (n + 1) (used + later) (s.more bytes)).map finish =
        (feedWithin f (n + 1) later (e.more bytes)).map finish := by
    obtain ⟨_, used, same⟩ := feedWithin_more untraced unending prepared keeps unlimited whole
      (feedWithin_mono fed enough (Nat.le_refl turns))
    refine ⟨used, fun later => ?_⟩
    have nothing : Finish.after [] = id := rfl
    rw [map_finish_of_rel (same bytes later), nothing, Option.map_id, id]
  rw [finishes_iff_feedWithin, finishes_iff_feedWithin]
  constructor
  · rintro ⟨n, turns', ended⟩
    obtain ⟨used, same⟩ := same (max n fuel) (by omega)
    refine ⟨max n fuel + 1, turns', ?_⟩
    rw [← same]
    exact map_finish_mono ended (by omega) (by omega)
  · rintro ⟨n, turns', ended⟩
    obtain ⟨used, same⟩ := same (max n fuel) (by omega)
    refine ⟨max n fuel + 1, used + turns', ?_⟩
    rw [same]
    exact map_finish_mono ended (by omega) (Nat.le_refl turns')

end Finish

private theorem keeps_of_prepare {start m : Machine} {program : List UInt8}
    (consistent : start.Consistent) (prepared : start.prepare program = .ok m) :
    Keeps m m ∧ m.prepared = true := by
  obtain ⟨jumps, linked, rfl⟩ := Machine.prepare_eq_ok_iff.mp prepared
  exact ⟨⟨.refl _, consistent.loaded linked, fun h => (nomatch h)⟩, rfl⟩

/-- A fresh machine is fed with input that is cut where tokens are, until that input ends. Then it
waits with nothing unread, and its image can be written, read and restored into a new machine of the
sizes that it asks for. Feeding the restored machine with any further input ends if and only if feeding
a fresh machine with all of the input at once does, in the same way and with machines that look the
same, and what has been written before and after the restoration is what is written at once. -/
theorem resumed_feed_finishes_iff {f : Feeder} {sizes : Sizes} {program first : List UInt8}
    {m : Machine} {e : State} {fuel : Nat} {journal : Journal} (untraced : f.tracing = false)
    (unending : ∀ token, f.frame token ≠ .error .inputEnded) (whole : f.split.Whole first)
    (prepared : (Machine.ofSizes sizes).prepare program = .ok m) (fits : m.Fits)
    (fed : feed f fuel (State.start m (.ofBytes first) .unlimited journal) = some (e, .inputEnded)) :
    e.machine.state = .waiting ∧ e.machine.input.unread = [] ∧ e.machine.output.unread = [] ∧
    ∃ taken img fresh j, e.machine.image? = some taken ∧
      Image.decode (.ofBytes taken.encode) = .ok img ∧ Machine.create img.sizes = .ok fresh ∧
      fresh.restore img = .ok j ∧
      ∀ (rest : List UInt8) (journal₁ journal₂ : Journal) (r : Finish),
        (State.start m (.ofBytes (first ++ rest)) .unlimited journal₁).Finishes f r ↔
          ∃ r₂, (State.start j (.ofBytes rest) .unlimited journal₂).Finishes f r₂ ∧
            r = r₂.after e.output.accepted.toList := by
  obtain ⟨keeps, loaded⟩ := keeps_of_prepare (Machine.consistent_ofSizes sizes) prepared
  obtain ⟨⟨kept, room, exhausted⟩, _⟩ := feedWithin_more untraced unending loaded keeps rfl whole
    (feedWithin_mono fed (Nat.le_succ fuel) (Nat.le_refl fuel))
  have holds : e.machine.prepared = true := kept.frame.prepared.trans loaded
  have small := fits.of_sameFrame kept.frame
  obtain ⟨fresh, made, cells, inputSize, outputSize⟩ := Machine.create_snapshot small kept.consistent
  have started : ¬ e.machine.Unstarted := fun unstarted => by
    have running := unstarted.2
    rw [exhausted.waiting] at running
    cases running
  obtain ⟨j, restored⟩ := (Machine.exists_restore_snapshot_iff small kept.consistent kept.settled
    holds ⟨cells, inputSize, outputSize⟩).mpr started
  have alike := Machine.Alike.of_restored small kept.consistent holds inputSize outputSize restored
  refine ⟨exhausted.waiting, kept.settled exhausted.waiting, exhausted.output, _, _, fresh, j,
    Machine.image?_of_prepared holds, Machine.decode_snapshot small, made, restored,
    fun rest journal₁ journal₂ r => ?_⟩
  have again : State.Follows [] (State.start m (.ofBytes (first ++ rest)) .unlimited journal₁)
      ((State.start m (.ofBytes first) .unlimited journal).more rest) :=
    ⟨.refl _, rfl, rfl, rfl, rfl, rfl⟩
  have copied : State.Follows e.output.accepted.toList (e.more rest)
      (State.start j (.ofBytes rest) .unlimited journal₂) := by
    refine ⟨alike, exhausted.pending, ?_, ?_, room, rfl⟩
    · simp [State.more, State.start, exhausted.input, Source.ofBytes]
    · simp [State.more, State.start, Sink.unlimited]
  rw [again.finishes_iff_of_nil untraced,
    finishes_more_iff untraced unending loaded keeps rfl whole fed rest, copied.finishes_iff untraced]

/-- A machine that echoes its input through queues of one byte, stopped after the first line. -/
theorem resumed_feed_finishes_iff_echo : ∃ m e taken img fresh j,
    (Machine.ofSizes ⟨1, 1, 1, by decide, by decide, by decide⟩).prepare [44, 91, 46, 44, 93] =
      .ok m ∧
    feed Feeder.standard 9 (State.start m (.ofBytes [97, 10]) .unlimited .unlimited) =
      some (e, .inputEnded) ∧
    e.output.accepted.toList = [97, 10] ∧ e.machine.state = .waiting ∧
    e.machine.image? = some taken ∧ Image.decode (.ofBytes taken.encode) = .ok img ∧
    Machine.create img.sizes = .ok fresh ∧ fresh.restore img = .ok j ∧
    ∀ rest r,
      (State.start m (.ofBytes ([97, 10] ++ rest)) .unlimited .unlimited).Finishes .standard r ↔
        ∃ r₂, (State.start j (.ofBytes rest) .unlimited .unlimited).Finishes .standard r₂ ∧
          r = r₂.after [97, 10] := by
  obtain ⟨m, prepared, ran⟩ : ∃ m,
      (Machine.ofSizes ⟨1, 1, 1, by decide, by decide, by decide⟩).prepare [44, 91, 46, 44, 93] =
        .ok m ∧
      (feed Feeder.standard 9 (State.start m (.ofBytes [97, 10]) .unlimited .unlimited)).map
        (fun e => (e.2, e.1.output.accepted.toList)) = some (.inputEnded, [97, 10]) :=
    ⟨_, rfl, by decide +kernel⟩
  obtain ⟨⟨e, ending⟩, fed, view⟩ := Option.map_eq_some_iff.mp ran
  simp only [Prod.mk.injEq] at view
  obtain ⟨rfl, written⟩ := view
  have fits : m.Fits := by
    cases prepared
    exact ⟨by decide, by decide, by decide, by decide⟩
  have unending (token : List UInt8) : Feeder.standard.frame token ≠ .error .inputEnded := by
    intro ends
    cases ends
  obtain ⟨waiting, _, _, taken, img, fresh, j, image, read, made, restored, same⟩ :=
    resumed_feed_finishes_iff rfl unending (Or.inr ⟨rfl, Or.inr rfl⟩) prepared fits fed
  rw [written] at same
  exact ⟨m, e, taken, img, fresh, j, prepared, fed, written, waiting, image, read, made, restored,
    fun rest r => same rest .unlimited .unlimited r⟩

end TapeMachine.Feed
