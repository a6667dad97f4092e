import TapeMachine.Proofs.Tracing
/-!
# Feeding into a sink of limited room

As long as the output fits, a feed into a sink of limited room goes turn by turn like the feed into a
sink that accepts everything: a sink is only written to when output is flushed, and nothing but the
flush looks at it. The first flush that does not fit fills the sink and ends the feed, whatever the run
before it has come to. So the sink ends up with a prefix of the whole output.
-/

set_option autoImplicit false
set_option relaxedAutoImplicit false

namespace TapeMachine.Feed

/-- The feed with a sink that accepts `room` bytes in all, of which some have been written. -/
def State.limit (room : Nat) (fault : Fault) (s : State) : State :=
  { s with output := ⟨s.output.accepted, some (room - s.output.accepted.size), fault⟩ }

def Turn.limit (room : Nat) (fault : Fault) : Turn → Turn
  | .again s => .again (s.limit room fault)
  | .done s ending => .done (s.limit room fault) ending

/-- How a feed into a sink that accepts `room` bytes ends, where the one into a sink without limit ends
in `e`. -/
structure Cut (room : Nat) (fault : Fault) (e : State) (ending : Ending) (e' : State)
    (ending' : Ending) : Prop where
  accepted : e'.output.accepted.toList = e.output.accepted.toList.take room
  refused : ending' = .failed (.output fault) ↔ room < e.output.accepted.size
  same : e.output.accepted.size ≤ room →
    ending' = ending ∧ e'.machine = e.machine ∧ e'.pending = e.pending ∧ e'.input = e.input ∧
      e'.journal = e.journal

/-! ## Flushing -/

section Flush

variable {room : Nat} {fault : Fault}

private theorem length_block (queue : Buffer) :
    (queue.take blockSize).1.length = min blockSize queue.length ∧
      (queue.take blockSize).2.length = queue.length - blockSize := by
  refine ⟨?_, Buffer.length_take queue blockSize⟩
  rw [Buffer.fst_take, List.length_take, Buffer.length_unread]

private theorem flush_of_fits (queue : Buffer) (sink : Sink) (unlimited : sink.room = none)
    (fits : queue.length ≤ room) :
    flush queue ⟨sink.accepted, some room, fault⟩ =
      ((flush queue sink).1,
        ⟨(flush queue sink).2.1.accepted, some (room - queue.length), fault⟩, none) := by
  generalize size : queue.length = n
  induction n using Nat.strongRecOn generalizing queue sink room with
  | _ n ih =>
      obtain ⟨accepted, limit, fault'⟩ := sink
      simp only at unlimited
      subst unlimited
      rw [flush, flush]
      by_cases some_left : queue.hasUnread = true
      · have unread : 0 < queue.length := by
          rw [Nat.pos_iff_ne_zero, ne_eq, ← queue.unread_eq_nil_iff]
          exact queue.hasUnread_iff.mp some_left
        obtain ⟨block, rest⟩ := length_block queue
        have positive : 0 < blockSize := by decide
        have later := ih _ (by omega) (queue.take blockSize).2
          ⟨accepted ++ (queue.take blockSize).1, none, fault'⟩ rfl
          (show _ ≤ room - (queue.take blockSize).1.length by omega) rfl
        have room_left : room - (queue.take blockSize).1.length - (queue.take blockSize).2.length =
            room - n := by omega
        simp only [some_left, dite_true, Sink.write,
          if_pos (show (queue.take blockSize).1.length ≤ room by omega)]
        rw [later, room_left]
      · have nothing : queue.length = 0 := by
          rw [← queue.unread_eq_nil_iff]
          rw [queue.hasUnread_iff] at some_left
          simpa using some_left
        simp [some_left, ← size, nothing]

private theorem flush_of_overflow (queue : Buffer) (accepted : Array UInt8)
    (overflow : room < queue.length) :
    ∃ rest sink, flush queue ⟨accepted, some room, fault⟩ = (rest, sink, some fault) ∧
      sink.accepted.toList = accepted.toList ++ queue.unread.take room := by
  generalize size : queue.length = n
  induction n using Nat.strongRecOn generalizing queue accepted room with
  | _ n ih =>
      have some_left : queue.hasUnread = true := by
        rw [queue.hasUnread_iff, ne_eq, queue.unread_eq_nil_iff]
        omega
      obtain ⟨block, rest⟩ := length_block queue
      rw [flush]
      by_cases fits : (queue.take blockSize).1.length ≤ room
      · have positive : 0 < blockSize := by decide
        obtain ⟨last, sink, flushed, written⟩ := ih _ (by omega) (queue.take blockSize).2
          (accepted ++ (queue.take blockSize).1)
          (show room - (queue.take blockSize).1.length < _ by omega) rfl
        refine ⟨last, sink, ?_, ?_⟩
        · simpa only [some_left, dite_true, Sink.write, if_pos fits] using flushed
        · have parts : queue.unread.take room =
              queue.unread.take blockSize ++ (queue.unread.drop blockSize).take (room - blockSize) := by
            rw [← List.take_add, Nat.add_sub_cancel' (show blockSize ≤ room by omega)]
          rw [written, Array.toList_appendList, Buffer.unread_take, Buffer.fst_take, parts,
            List.append_assoc, List.length_take, Buffer.length_unread,
            Nat.min_eq_left (show blockSize ≤ queue.length by omega)]
      · refine ⟨(queue.take blockSize).2, ⟨accepted ++ (queue.take blockSize).1.take room, some 0, fault⟩,
          ?_, ?_⟩
        · simp only [some_left, dite_true, Sink.write, if_neg fits]
        · rw [Array.toList_appendList, Buffer.fst_take, List.take_take]
          congr 2
          omega

end Flush

/-! ## Turns -/

section Turns

variable {room : Nat} {fault : Fault}

private theorem give_limit (s : State) : give (s.limit room fault) = (give s).limit room fault := by
  obtain ⟨m, pending, input, output, journal⟩ := s
  rfl

private theorem fetch_limit (f : Feeder) (s : State) :
    fetch f (s.limit room fault) = (fetch f s).limit room fault := by
  obtain ⟨m, pending, ⟨bytes, broken⟩, output, journal⟩ := s
  simp only [fetch, State.limit]
  cases f.scan bytes with
  | tooLong => rfl
  | failed fault => rfl
  | ended => cases broken <;> rfl
  | token token rest =>
      cases applied : f.frame token with
      | error error =>
          simp only [applied]
          rfl
      | ok framed =>
          simp only [applied]
          rfl

private theorem conclude_limit (f : Feeder) (s : State) (error : Option RunError) :
    conclude f (s.limit room fault) error = (conclude f s error).limit room fault := by
  rcases error with _ | _ | _ | _
  · have waits : (s.limit room fault).machine.isWaiting = s.machine.isWaiting := rfl
    have spent : (s.limit room fault).pending.isEmpty = s.pending.isEmpty := rfl
    simp only [conclude, waits, spent]
    split
    · split
      · exact fetch_limit f s
      · exact give_limit s
    · rfl
  all_goals rfl

/-- The rest of a turn whose output has all been accepted. -/
def settle (f : Feeder) (s : State) : Option Halt → Turn
  | none => conclude f s none
  | some (.run error) => conclude f s (some error)
  | some (.trace fault) => .done s (.failed (.trace fault))

private theorem settle_limit (f : Feeder) (s : State) (halt : Option Halt) :
    settle f (s.limit room fault) halt = (settle f s halt).limit room fault := by
  rcases halt with _ | error | fault'
  · exact conclude_limit f s none
  · exact conclude_limit f s (some error)
  · rfl

private theorem settle_output (f : Feeder) (s : State) (halt : Option Halt) :
    (settle f s halt).state.output = s.output := by
  rcases halt with _ | error | fault'
  · exact (conclude_accepts f s none).output
  · exact (conclude_accepts f s (some error)).output
  · rfl

private theorem fetch_ne_output (f : Feeder) (s e : State) (fault : Fault) :
    fetch f s ≠ .done e (.failed (.output fault)) := by
  intro fetched
  have fetches := fetches f s
  rw [fetched] at fetches
  cases fetches with
  | failed cause stops =>
      rcases cause with rfl | ⟨_, rfl⟩ <;> cases stops
  | ended _ _ stops => cases stops
  | @refused _ _ error _ _ stops => cases error <;> cases stops
  | framed _ _ goes => cases goes

private theorem conclude_ne_output (f : Feeder) (s e : State) (error : Option RunError)
    (fault : Fault) : conclude f s error ≠ .done e (.failed (.output fault)) := by
  intro concluded
  have concludes := concludes f s error
  rw [concluded] at concludes
  cases concludes with
  | emptied _ again => cases again
  | failed _ stops | halted _ _ stops => cases stops
  | fetched _ _ _ goes => exact fetch_ne_output f s e fault goes.symm
  | given _ _ _ goes => cases goes

private theorem settle_ne_output (f : Feeder) (s : State) (halt : Option Halt) (e : State)
    (fault : Fault) : settle f s halt ≠ .done e (.failed (.output fault)) := by
  rcases halt with _ | error | fault'
  · exact conclude_ne_output f s e none fault
  · exact conclude_ne_output f s e (some error) fault
  · intro settled
    cases settled

private theorem proceed_unlimited {s : State} (unlimited : s.output.room = none) (f : Feeder)
    (ran : Ran) :
    ∃ after : State, s.proceed f ran = settle f after ran.halt ∧ after.output.room = none ∧
      after.output.accepted.toList = s.output.accepted.toList ++ ran.machine.output.unread ∧
      after = ⟨{ ran.machine with output := (flush ran.machine.output s.output).1 }, s.pending, s.input,
        (flush ran.machine.output s.output).2.1, ran.journal⟩ := by
  obtain ⟨queue, sink, flushed, _, _, room, accepted⟩ :=
    flush_unlimited ran.machine.output s.output unlimited
  refine ⟨⟨{ ran.machine with output := queue }, s.pending, s.input, sink, ran.journal⟩, ?_, room,
    accepted, by rw [flushed]⟩
  obtain ⟨m, journal, halt⟩ := ran
  simp only [State.proceed, flushed]
  rcases halt with _ | error | fault' <;> rfl

private theorem proceed_of_fits {s : State} (unlimited : s.output.room = none) (f : Feeder)
    (ran : Ran) (fits : s.output.accepted.size + ran.machine.output.length ≤ room) :
    (s.limit room fault).proceed f ran = (s.proceed f ran).limit room fault := by
  obtain ⟨after, settled, _, accepted, rfl⟩ := proceed_unlimited unlimited f ran
  have flushed := @flush_of_fits (room - s.output.accepted.size) fault ran.machine.output s.output
    unlimited (by omega)
  have size := congrArg List.length accepted
  rw [Array.length_toList, List.length_append, Array.length_toList, Buffer.length_unread] at size
  have room_left : room - s.output.accepted.size - ran.machine.output.length =
      room - (flush ran.machine.output s.output).2.1.accepted.size := by
    rw [size]
    omega
  rw [room_left] at flushed
  rw [settled, ← settle_limit]
  obtain ⟨m, journal, halt⟩ := ran
  simp only [State.proceed, State.limit, flushed]
  rcases halt with _ | error | fault' <;> rfl

private theorem proceed_of_overflow {s : State} (f : Feeder) (ran : Ran)
    (fits : s.output.accepted.size ≤ room)
    (overflow : room < s.output.accepted.size + ran.machine.output.length) :
    ∃ e, (s.limit room fault).proceed f ran = .done e (.failed (.output fault)) ∧
      e.output.accepted.toList =
        (s.output.accepted.toList ++ ran.machine.output.unread).take room := by
  obtain ⟨rest, sink, flushed, written⟩ := @flush_of_overflow (room - s.output.accepted.size) fault
    ran.machine.output s.output.accepted (by omega)
  refine ⟨⟨{ ran.machine with output := rest }, s.pending, s.input, sink, ran.journal⟩, ?_, ?_⟩
  · simp only [State.proceed, State.limit, flushed]
  · have held : s.output.accepted.toList.take room = s.output.accepted.toList := by
      rw [List.take_of_length_le]
      rw [Array.length_toList]
      exact fits
    rw [written, List.take_append, held, Array.length_toList]

variable {f : Feeder} {fuel : Nat} {s : State} {t : Turn}

private theorem turn_unlimited (unlimited : s.output.room = none) (turned : turn f fuel s = some t) :
    t.state.output.room = none ∧ s.output.accepted.toList <+: t.state.output.accepted.toList ∧
      ∀ e fault, t ≠ .done e (.failed (.output fault)) := by
  rw [turn_eq_proceed, Option.map_eq_some_iff] at turned
  obtain ⟨ran, _, rfl⟩ := turned
  obtain ⟨after, settled, room, accepted, _⟩ := proceed_unlimited unlimited f ran
  rw [settled, settle_output]
  refine ⟨room, ?_, settle_ne_output f after ran.halt⟩
  rw [accepted]
  exact List.prefix_append _ _

private theorem turn_limit (unlimited : s.output.room = none) (fits : s.output.accepted.size ≤ room)
    (turned : turn f fuel s = some t) :
    (t.state.output.accepted.size ≤ room ∧
        turn f fuel (s.limit room fault) = some (t.limit room fault)) ∨
      room < t.state.output.accepted.size ∧
        ∃ e, turn f fuel (s.limit room fault) = some (.done e (.failed (.output fault))) ∧
          e.output.accepted.toList = t.state.output.accepted.toList.take room := by
  rw [turn_eq_proceed, Option.map_eq_some_iff] at turned
  obtain ⟨ran, driven, rfl⟩ := turned
  obtain ⟨after, settled, _, accepted, _⟩ := proceed_unlimited unlimited f ran
  have size := congrArg List.length accepted
  rw [Array.length_toList, List.length_append, Array.length_toList, Buffer.length_unread] at size
  -- The run and its trace do not look at the sink.
  have goes (limited : State) (machine : limited.machine = s.machine)
      (journal : limited.journal = s.journal) :
      turn f fuel limited = some (limited.proceed f ran) := by
    rw [turn_eq_proceed, machine, journal, driven, Option.map_some]
  rw [goes (s.limit room fault) rfl rfl, settled, settle_output, size]
  rcases Nat.lt_or_ge room (s.output.accepted.size + ran.machine.output.length) with beyond | within
  · obtain ⟨e, fails, written⟩ := @proceed_of_overflow room fault s f ran fits beyond
    rw [← accepted] at written
    exact Or.inr ⟨beyond, e, congrArg some fails, written⟩
  · rw [← settled, proceed_of_fits unlimited f ran within]
    exact Or.inl ⟨within, rfl⟩

end Turns

/-! ## Feeds -/

section Feeds

variable {f : Feeder} {fuel turns : Nat} {s e : State} {ending : Ending}

private theorem feedWithin_unlimited (unlimited : s.output.room = none)
    (fed : feedWithin f fuel turns s = some (e, ending)) :
    s.output.accepted.toList <+: e.output.accepted.toList ∧
      ∀ fault, ending ≠ .failed (.output fault) := by
  induction turns generalizing s with
  | zero => cases fed
  | succ turns ih =>
      rw [feedWithin] at fed
      split at fed
      · cases fed
      case h_2 turned =>
        obtain ⟨unlimited', more, _⟩ := turn_unlimited unlimited turned
        obtain ⟨later, fine⟩ := ih unlimited' fed
        exact ⟨more.trans later, fine⟩
      case h_3 turned =>
        obtain ⟨_, more, fine⟩ := turn_unlimited unlimited turned
        cases fed
        refine ⟨more, fun fault same => fine e fault ?_⟩
        rw [same]

private theorem feedWithin_limit (room : Nat) (fault : Fault) (unlimited : s.output.room = none)
    (fits : s.output.accepted.size ≤ room) (fed : feedWithin f fuel turns s = some (e, ending)) :
    ∃ e' ending', feedWithin f fuel turns (s.limit room fault) = some (e', ending') ∧
      Cut room fault e ending e' ending' := by
  induction turns generalizing s with
  | zero => cases fed
  | succ turns ih =>
      rw [feedWithin] at fed ⊢
      cases turned : turn f fuel s with
      | none => simp [turned] at fed
      | some t =>
          rw [turned] at fed
          obtain ⟨unlimited', _, fine⟩ := turn_unlimited unlimited turned
          rcases @turn_limit room fault f fuel s t unlimited fits turned with
            ⟨within, same⟩ | ⟨beyond, e', fails, written⟩
          · rw [same]
            cases t with
            | again s₁ => exact ih unlimited' within fed
            | done s₁ ending₁ =>
                cases fed
                have accepted : e.output.accepted.toList = e.output.accepted.toList.take room := by
                  rw [List.take_of_length_le]
                  rw [Array.length_toList]
                  exact within
                refine ⟨e.limit room fault, ending, rfl, accepted, ?_, fun _ => ⟨rfl, rfl, rfl, rfl, rfl⟩⟩
                constructor
                · intro refused
                  rw [refused] at fine
                  exact absurd rfl (fine e fault)
                · intro beyond
                  exact absurd within (Nat.not_le_of_lt beyond)
          · -- What has been flushed up to here is a prefix of all that is flushed.
            have more : t.state.output.accepted.toList <+: e.output.accepted.toList := by
              cases t with
              | again s₁ => exact (feedWithin_unlimited unlimited' fed).1
              | done s₁ ending₁ =>
                  cases fed
                  exact List.prefix_refl _
            have size := more.length_le
            rw [Array.length_toList, Array.length_toList] at size
            have overflow : room < e.output.accepted.size := Nat.lt_of_lt_of_le beyond size
            rw [fails]
            refine ⟨e', _, rfl, ?_, ⟨fun _ => overflow, fun _ => rfl⟩, fun within => ?_⟩
            · obtain ⟨later, whole⟩ := more
              rw [written, ← whole, List.take_append_of_le_length]
              rw [Array.length_toList]
              exact Nat.le_of_lt beyond
            · exact absurd within (Nat.not_le_of_lt overflow)

end Feeds

/-- Where a feed into a sink without limit returns, so does the same feed into a sink that accepts `room`
bytes, and that sink has accepted exactly the first `room` bytes of the output, or all of it. The feed
has failed with the fault of the sink if and only if not all of the output fits, and otherwise it has
ended in the same way with the same machine. -/
theorem limited_sink_accepts_prefix (f : Feeder) (m : Machine) (input : Source) (journal : Journal)
    {fuel : Nat} {e : State} {ending : Ending}
    (fed : feed f fuel (.start m input .unlimited journal) = some (e, ending)) (room : Nat)
    (fault : Fault) :
    (∃ fuel' e' ending', feed f fuel' (.start m input (.limited room fault) journal) =
        some (e', ending')) ∧
      ∀ fuel' e' ending', feed f fuel' (.start m input (.limited room fault) journal) =
          some (e', ending') → Cut room fault e ending e' ending' := by
  have empty : (State.start m input .unlimited journal).output.accepted.size ≤ room := Nat.zero_le room
  obtain ⟨e', ending', fed', cut⟩ := feedWithin_limit room fault rfl empty fed
  refine ⟨⟨fuel, e', ending', fed'⟩, ?_⟩
  intro fuel' e₁ ending₁ fed₁
  cases feed_unique fed' fed₁
  exact cut

/-- The frame refuses the last byte of the input, after four bytes of output in two flushes. With room
for three of them the sink is at fault, and with room for all of them still the frame. -/
theorem limited_sink_accepts_prefix_cut :
    let bad : Fault := .device "bad"
    let full : Fault := .device "full"
    let f : Feeder :=
      { split := .bytes, frame := fun token => if token = [98] then .error (.failed bad) else .ok token }
    ∃ m e, (Machine.ofSizes ⟨1, 1, 2, by decide, by decide, by decide⟩).prepare
        [44, 46, 46, 44, 46, 46, 44] = .ok m ∧
      feed f 20 (.start m (.ofBytes [97, 99, 98]) .unlimited .unlimited) =
        some (e, .failed (.frame bad)) ∧ e.output.accepted.toList = [97, 97, 99, 99] ∧
      (∃ fuel e', feed f fuel (.start m (.ofBytes [97, 99, 98]) (.limited 3 full) .unlimited) =
        some (e', .failed (.output full)) ∧ e'.output.accepted.toList = [97, 97, 99]) ∧
      ∃ fuel e', feed f fuel (.start m (.ofBytes [97, 99, 98]) (.limited 4 full) .unlimited) =
        some (e', .failed (.frame bad)) ∧ e'.output.accepted.toList = [97, 97, 99, 99] := by
  intro bad full f
  let m := (Machine.ofSizes ⟨1, 1, 2, by decide, by decide, by decide⟩).loaded
    [44, 46, 46, 44, 46, 46, 44] #[none, none, none, none, none, none, none]
  have prepared : (Machine.ofSizes ⟨1, 1, 2, by decide, by decide, by decide⟩).prepare
      [44, 46, 46, 44, 46, 46, 44] = .ok m := rfl
  obtain ⟨⟨e, ending⟩, fed, view⟩ := Option.map_eq_some_iff.mp
    (show (feed f 20 (.start m (.ofBytes [97, 99, 98]) .unlimited .unlimited)).map
      (fun e => (e.2, e.1.output.accepted.toList)) =
        some (.failed (.frame bad), [97, 97, 99, 99]) by decide +kernel)
  simp only [Prod.mk.injEq] at view
  obtain ⟨rfl, written⟩ := view
  have size : e.output.accepted.size = 4 := by
    rw [← Array.length_toList, written]
    rfl
  refine ⟨m, e, prepared, fed, written, ?_, ?_⟩
  · obtain ⟨⟨fuel, e', ending', fed'⟩, cuts⟩ :=
      limited_sink_accepts_prefix f m (.ofBytes [97, 99, 98]) .unlimited fed 3 full
    have cut := cuts fuel e' ending' fed'
    obtain rfl := cut.refused.mpr (by omega)
    exact ⟨fuel, e', fed', by rw [cut.accepted, written]; rfl⟩
  · obtain ⟨⟨fuel, e', ending', fed'⟩, cuts⟩ :=
      limited_sink_accepts_prefix f m (.ofBytes [97, 99, 98]) .unlimited fed 4 full
    have cut := cuts fuel e' ending' fed'
    obtain ⟨rfl, -⟩ := cut.same (by omega)
    exact ⟨fuel, e', fed', by rw [cut.accepted, written]; rfl⟩

end TapeMachine.Feed
