import TapeMachine.Proofs.Splitting
import TapeMachine.Proofs.Tracing
/-!
# Lines that are too long

A line is looked for in as many bytes as the limit of the feeder allows, and its line feed has to be
among them. So a line is refused when it has as many bytes as the limit, a carriage return at its end
included, and not only when it has more. A feed ends with this error exactly where the program comes to
wait for such a line, and nothing of the line has been fed then.
-/

set_option autoImplicit false
set_option relaxedAutoImplicit false

namespace TapeMachine.Feed

open Text (firstLine FromLine)

/-- The program is run and comes to wait for input, its output has been flushed, and nothing is left of
the current token. The second state is the one in which the next token is fetched. -/
inductive Suspends (f : Feeder) (fuel : Nat) (s : State) : State → Prop
  | waits {m : Machine} {journal : Journal} {queue : Buffer} {sink : Sink}
      (ran : runMachine f.tracing fuel s.machine s.journal = some ⟨m, journal, none⟩)
      (waiting : m.state = .waiting) (flushed : flush m.output s.output = (queue, sink, none))
      (spent : s.pending = []) :
      Suspends f fuel s ⟨{ m with output := queue }, [], s.input, sink, journal⟩

def State.refusedLine (s : State) : State :=
  { s with journal := s.journal.log (event s.machine "waiting for input") }

/-! ## Lines of a text -/

section Lines

private theorem length_dropReturn_le (line : List UInt8) :
    (dropReturn line).length ≤ line.length := by
  unfold dropReturn
  split
  · rw [List.length_dropLast]
    exact Nat.sub_le _ _
  · exact Nat.le_refl _

end Lines

/-! ## Turns -/

section Turns

variable {f : Feeder} {fuel : Nat} {s s₁ e : State}

private theorem Suspends.turn (suspends : Suspends f fuel s s₁) : turn f fuel s = some
    (fetch f s₁) := by
  obtain ⟨ran, waiting, flushed, spent⟩ := suspends
  rw [turn_eq_proceed, ran, Option.map_some]
  simp [State.proceed, flushed, conclude, Machine.isWaiting, waiting, spent]

private theorem fetch_tooLong_iff (lines : f.split = .lines) :
    fetch f s = .done e (.failed .tooLong) ↔
      f.limit ≤ (firstLine s.input.bytes).length ∧ e = s.refusedLine := by
  rw [← Split.lines_eq_tooLong_iff f.limit_pos, ← lines, ← Feeder.scan]
  unfold fetch
  cases f.scan s.input.bytes with
  | tooLong => simp [State.refusedLine, eq_comm]
  | failed fault => simp
  | ended => cases s.input.fault <;> simp
  | token token rest =>
      cases applied : f.frame token with
      | ok framed => simp [applied, give]
      | error error => cases error <;> simp [applied, FrameError.ending]

private theorem fromLine_of_fetch (lines : f.split = .lines) (fetched : fetch f s = .again s₁) :
    s₁.input.bytes = [] ∨ FromLine s.input.bytes s₁.input.bytes := by
  have fetches := fetches f s
  rw [fetched] at fetches
  cases fetches with
  | failed _ stops | ended _ _ stops | refused _ _ stops => cases stops
  | framed next _ goes =>
      rw [Feeder.scan, lines] at next
      cases goes
      exact Split.fromLine_of_lines next

private theorem suspends_of_tooLong
    (turned : Feed.turn f fuel s = some (.done e (.failed .tooLong))) :
    ∃ s₁, Suspends f fuel s s₁ ∧ fetch f s₁ = .done e (.failed .tooLong) := by
  rw [turn_eq_proceed, Option.map_eq_some_iff] at turned
  obtain ⟨ran, driven, proceeded⟩ := turned
  have proceeds := proceeds f s ran
  rw [proceeded] at proceeds
  cases proceeds with
  | failed cause stops => rcases cause with ⟨_, rfl⟩ | ⟨_, rfl⟩ <;> cases stops
  | @concluded queue sink error flushed halt concluded =>
      have concludes := concludes f
        ⟨{ ran.machine with output := queue }, s.pending, s.input, sink, ran.journal⟩ error
      rw [← concluded] at concludes
      cases concludes with
      | emptied _ again => cases again
      | failed _ stops | halted _ _ stops => cases stops
      | given _ _ _ goes => cases goes
      | fetched fine waiting spent goes =>
          obtain ⟨m, journal, _⟩ := ran
          rw [fine] at halt
          cases halt
          rw [show s.pending = [] from spent] at goes
          exact ⟨_, .waits driven waiting flushed spent, goes.symm⟩

theorem fromLine_of_turn (lines : f.split = .lines) (turned : Feed.turn f fuel s = some (.again s₁)) :
    s₁.input.bytes = [] ∨ FromLine s.input.bytes s₁.input.bytes := by
  rw [turn_eq_proceed, Option.map_eq_some_iff] at turned
  obtain ⟨ran, _, proceeded⟩ := turned
  have proceeds := proceeds f s ran
  rw [proceeded] at proceeds
  cases proceeds with
  | failed _ stops => cases stops
  | @concluded queue sink error _ _ concluded =>
      have concludes := concludes f
        ⟨{ ran.machine with output := queue }, s.pending, s.input, sink, ran.journal⟩ error
      rw [← concluded] at concludes
      cases concludes with
      | emptied _ again =>
          cases again
          exact Or.inr (.refl _)
      | failed _ stops | halted _ _ stops => cases stops
      | given _ _ _ goes =>
          cases goes
          exact Or.inr (.refl _)
      | fetched _ _ _ goes =>
          have reads := fromLine_of_fetch lines goes.symm
          exact reads

end Turns

/-! ## Feeds -/

section Feeds

variable {f : Feeder} {fuel n turns : Nat} {s s₁ e : State} {ending : Ending}

private theorem feedWithin_eq_some_iff :
    feedWithin f fuel turns s = some (e, ending) ↔
      ∃ n s₁, n < turns ∧ Turns f fuel n s s₁ ∧ Feed.turn f fuel s₁ = some (.done e ending) := by
  constructor
  · intro fed
    induction turns generalizing s with
    | zero => cases fed
    | succ turns ih =>
        rw [feedWithin] at fed
        split at fed
        · cases fed
        case h_2 s₂ turned =>
          obtain ⟨n, s₁, few, went, last⟩ := ih fed
          exact ⟨n + 1, s₁, Nat.succ_lt_succ few, .again turned went, last⟩
        case h_3 turned =>
          cases fed
          exact ⟨0, s, Nat.succ_pos _, .refl s, turned⟩
  · rintro ⟨n, s₁, few, went, last⟩
    induction went generalizing turns with
    | refl s =>
        obtain ⟨turns, rfl⟩ : ∃ k, turns = k + 1 := ⟨turns - 1, by omega⟩
        rw [feedWithin, last]
    | again first _ ih =>
        obtain ⟨turns, rfl⟩ : ∃ k, turns = k + 1 := ⟨turns - 1, by omega⟩
        rw [feedWithin, first]
        exact ih (Nat.lt_of_succ_lt_succ few) last

private theorem fromLine_of_turns (lines : f.split = .lines) (went : Turns f fuel n s s₁) :
    s₁.input.bytes = [] ∨ FromLine s.input.bytes s₁.input.bytes := by
  induction went with
  | refl s => exact Or.inr (.refl _)
  | @again n s s₂ s₁ first _ ih =>
      rcases ih with nothing | later
      · exact Or.inl nothing
      · rcases fromLine_of_turn lines first with nothing | here
        · obtain ⟨front, whole, _⟩ := later
          rw [nothing] at whole
          exact Or.inl (List.append_eq_nil_iff.mp whole.symm).2
        · exact Or.inr (here.trans later)

theorem Turns.mono {fuel' : Nat} (went : Turns f fuel n s s₁) (more : fuel ≤ fuel') :
    Turns f fuel' n s s₁ := by
  induction went with
  | refl s => exact .refl s
  | again first _ ih => exact .again (turn_mono first more) ih

theorem Suspends.mono {fuel' : Nat} (suspends : Suspends f fuel s s₁) (more : fuel ≤ fuel') :
    Suspends f fuel' s s₁ := by
  obtain ⟨ran, waiting, flushed, spent⟩ := suspends
  exact .waits (runMachine_mono ran more) waiting flushed spent

/-- In the course of a feed the program comes to wait for the next line of the input. -/
def Asks (f : Feeder) (s s₂ : State) : Prop :=
  ∃ fuel n s₁, Turns f fuel n s s₁ ∧ Suspends f fuel s₁ s₂

theorem feed_tooLong_iff (lines : f.split = .lines) :
    (∃ fuel, feed f fuel s = some (e, .failed .tooLong)) ↔
      ∃ s₂, Asks f s s₂ ∧ f.limit ≤ (firstLine s₂.input.bytes).length ∧ e = s₂.refusedLine := by
  constructor
  · rintro ⟨fuel, fed⟩
    obtain ⟨n, s₁, _, went, last⟩ := feedWithin_eq_some_iff.mp fed
    obtain ⟨s₂, suspends, refused⟩ := suspends_of_tooLong last
    obtain ⟨long, same⟩ := (fetch_tooLong_iff lines).mp refused
    exact ⟨s₂, ⟨fuel, n, s₁, went, suspends⟩, long, same⟩
  · rintro ⟨s₂, ⟨fuel, n, s₁, went, suspends⟩, long, same⟩
    -- Enough fuel for every run is not yet enough for the number of turns.
    have more : fuel ≤ fuel + n + 1 := by omega
    refine ⟨fuel + n + 1, feedWithin_eq_some_iff.mpr ⟨n, s₁, by omega, went.mono more, ?_⟩⟩
    rw [(suspends.mono more).turn, (fetch_tooLong_iff lines).mpr ⟨long, same⟩]

private theorem Asks.fromLine (lines : f.split = .lines) (asks : Asks f s s₁) :
    s₁.input.bytes = [] ∨ FromLine s.input.bytes s₁.input.bytes := by
  obtain ⟨fuel, n, s₂, went, suspends⟩ := asks
  have line := fromLine_of_turns lines went
  cases suspends
  exact line

end Feeds

/-- Whenever the program waits for more and nothing is left of the last line, what has not been read
starts with the next line of the input. If that line has at least as many bytes as the limit, those of a
carriage return at its end included, the feed returns with an error, and nothing of the line has been
read or fed; it returns with this error in no other case. So it never does if all lines are shorter than
the limit, and always does where the program waits for a line that is longer than the limit even without
its carriage return. -/
theorem long_line_refused (f : Feeder) (lines : f.split = .lines) (m : Machine) (input : Source)
    (sink : Sink) (journal : Journal) :
    (∀ s, Asks f (.start m input sink journal) s →
      s.input.bytes = [] ∨ FromLine input.bytes s.input.bytes) ∧
    (∀ e, (∃ fuel, feed f fuel (.start m input sink journal) = some (e, .failed .tooLong)) ↔
      ∃ s, Asks f (.start m input sink journal) s ∧
        f.limit ≤ (firstLine s.input.bytes).length ∧ e = s.refusedLine) ∧
    ((∀ rest, FromLine input.bytes rest → (firstLine rest).length < f.limit) →
      ∀ fuel e, feed f fuel (.start m input sink journal) ≠ some (e, .failed .tooLong)) ∧
    ∀ s, Asks f (.start m input sink journal) s →
      f.limit < (dropReturn (firstLine s.input.bytes)).length →
      ∃ fuel e, feed f fuel (.start m input sink journal) = some (e, .failed .tooLong) ∧
        e.machine = s.machine ∧ e.input = s.input := by
  have refused (e : State) := @feed_tooLong_iff f (.start m input sink journal) e lines
  refine ⟨fun s asks => asks.fromLine lines, refused, ?_, ?_⟩
  · intro short fuel e fed
    obtain ⟨s, asks, long, _⟩ := (refused e).mp ⟨fuel, fed⟩
    rcases asks.fromLine lines with nothing | line
    · rw [nothing] at long
      have none_left : (firstLine []).length = 0 := rfl
      have positive := f.limit_pos
      omega
    · exact absurd long (Nat.not_le_of_lt (short s.input.bytes line))
  · intro s asks long
    have whole := length_dropReturn_le (firstLine s.input.bytes)
    obtain ⟨fuel, fed⟩ := (refused s.refusedLine).mpr ⟨s, asks, by omega, rfl⟩
    exact ⟨fuel, s.refusedLine, fed, rfl, rfl⟩

/-- The second of two lines is too long by one byte; the first one has been fed. -/
theorem long_line_refused_second : ∃ m s fuel e,
    (Machine.ofSizes ⟨1, 2, 1, by decide, by decide, by decide⟩).prepare [44, 44, 44] = .ok m ∧
    Asks { maxToken := 2 }
      (.start m (.ofBytes [97, 10, 98, 99, 100, 10]) .unlimited .unlimited) s ∧
    feed { maxToken := 2 } fuel
      (.start m (.ofBytes [97, 10, 98, 99, 100, 10]) .unlimited .unlimited) =
        some (e, .failed .tooLong) ∧
    e.machine.count = 2 ∧ e.input.bytes = [98, 99, 100, 10] := by
  let f : Feeder := { maxToken := 2 }
  let m := (Machine.ofSizes ⟨1, 2, 1, by decide, by decide, by decide⟩).loaded [44, 44, 44]
    #[none, none, none]
  have prepared : (Machine.ofSizes ⟨1, 2, 1, by decide, by decide, by decide⟩).prepare [44, 44, 44] =
      .ok m := rfl
  obtain ⟨_, refused, _, always⟩ := long_line_refused f rfl m
    (.ofBytes [97, 10, 98, 99, 100, 10]) .unlimited .unlimited
  obtain ⟨⟨e, ending⟩, fed, view⟩ := Option.map_eq_some_iff.mp
    (show (feed f 5 (.start m (.ofBytes [97, 10, 98, 99, 100, 10]) .unlimited .unlimited)).map
      (fun e => (e.2, e.1.machine.count, e.1.input.bytes)) =
        some (.failed .tooLong, 2, [98, 99, 100, 10]) by decide +kernel)
  simp only [Prod.mk.injEq] at view
  obtain ⟨rfl, count, left⟩ := view
  obtain ⟨s, asks, _, rfl⟩ := (refused e).mp ⟨5, fed⟩
  have long : 2 < (dropReturn (firstLine s.input.bytes)).length := by
    rw [show s.input.bytes = [98, 99, 100, 10] from left]
    decide
  obtain ⟨fuel, e, fed', machine, input⟩ := always s asks long
  refine ⟨m, s, fuel, e, prepared, asks, fed', ?_, ?_⟩
  · rw [machine]
    exact count
  · rw [input]
    exact left

/-- A line of one byte is refused at a limit of one byte: there is no room for its line feed. -/
theorem full_line_refused : ∃ m e,
    (Machine.ofSizes ⟨1, 1, 1, by decide, by decide, by decide⟩).prepare [44] = .ok m ∧
    (∀ rest, FromLine [120, 10] rest → (dropReturn (firstLine rest)).length ≤ 1) ∧
    feed { frame := .raw, maxToken := 1 } 5 (.start m (.ofBytes [120, 10]) .unlimited .unlimited) =
      some (e, .failed .tooLong) ∧
    e.machine.count = 0 := by
  let m := (Machine.ofSizes ⟨1, 1, 1, by decide, by decide, by decide⟩).loaded [44] #[none]
  obtain ⟨⟨e, ending⟩, fed, view⟩ := Option.map_eq_some_iff.mp
    (show (feed { frame := .raw, maxToken := 1 } 5
        (.start m (.ofBytes [120, 10]) .unlimited .unlimited)).map
      (fun e => (e.2, e.1.machine.count)) = some (.failed .tooLong, 0) by decide +kernel)
  simp only [Prod.mk.injEq] at view
  obtain ⟨rfl, count⟩ := view
  refine ⟨m, e, rfl, ?_, fed, count⟩
  rintro rest ⟨front, whole, _⟩
  -- Whatever is left is the text without some bytes at its start.
  have left : rest = List.drop front.length [120, 10] := by
    rw [whole, List.drop_left]
  generalize front.length = n at left
  subst left
  rcases n with _ | _ | n
  · decide
  · decide
  · simp [firstLine, dropReturn]

end TapeMachine.Feed
