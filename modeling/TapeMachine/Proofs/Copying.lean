import TapeMachine.Samples
import TapeMachine.Command.Options
import TapeMachine.Proofs.Focus
import TapeMachine.Proofs.Resuming
import TapeMachine.Proofs.Tracing
/-!
# The copying program copies what it is fed

The program asks for a byte, and as long as it is not 0 writes it and asks for the next. On the ideal
machine it writes its input up to the first 0 byte, and then halts at that byte or is blocked where
there is none. A feed shows what the ideal machine shows, so it copies the framed tokens, whatever the
sizes of the queues. Lines with their line feeds and single bytes put together are the input itself.
-/

set_option autoImplicit false
set_option relaxedAutoImplicit false

namespace TapeMachine

/-! ## The program -/

namespace Copying

open Block (line)

def echo : Block := .loop (line [.output, .input] .empty) .empty

def program : Block := line [.input] echo

private theorem text_program : program.text = Text.bytes Samples.cat := by
  decide +kernel

private theorem echo_eval (tape : Tape) (input output : List UInt8) :
    ∃ s : Store, s.output = output ++ (tape.read :: input).takeWhile (· ≠ 0) ∧
      echo.Eval ⟨tape, input, output⟩ (if 0 ∈ tape.read :: input then .done s else .stuck s) := by
  -- On the input: a round of the loop writes the current cell and reads the next byte into it.
  induction input generalizing tape output with
  | nil =>
      by_cases zero : tape.read = 0
      · exact ⟨⟨tape, [], output⟩, by simp [zero], by simpa [zero] using .skip zero (.empty _)⟩
      · have once : (line [.output, .input] .empty).Eval ⟨tape, [], output⟩
            (.stuck ⟨tape, [], output ++ [tape.read]⟩) := .action rfl (.starved rfl)
        refine ⟨⟨tape, [], output ++ [tape.read]⟩, by simp [zero], ?_⟩
        have absent : (0 : UInt8) ∉ [tape.read] := by simpa using Ne.symm zero
        rw [if_neg absent]
        exact .inside zero once
  | cons byte rest ih =>
      by_cases zero : tape.read = 0
      · exact ⟨⟨tape, byte :: rest, output⟩, by simp [zero],
          by simpa [zero] using .skip zero (.empty _)⟩
      · have once : (line [.output, .input] .empty).Eval ⟨tape, byte :: rest, output⟩
            (.done ⟨tape.write byte, rest, output ++ [tape.read]⟩) := .line rfl (.empty _)
        obtain ⟨s, written, more⟩ := ih (tape.write byte) (output ++ [tape.read])
        rw [Tape.read_write] at written more
        refine ⟨s, ?_, ?_⟩
        · rw [written]
          simp [zero]
        · have same : (0 : UInt8) ∈ tape.read :: byte :: rest ↔ 0 ∈ byte :: rest := by
            rw [List.mem_cons]
            exact or_iff_right (Ne.symm zero)
          simp only [same]
          exact .again zero once more

theorem program_eval (tape : Tape) (input : List UInt8) :
    ∃ s : Store, s.output = input.takeWhile (· ≠ 0) ∧
      program.Eval ⟨tape, input, []⟩ (if 0 ∈ input then .done s else .stuck s) := by
  cases input with
  | nil => exact ⟨⟨tape, [], []⟩, rfl, .starved rfl⟩
  | cons byte rest =>
      obtain ⟨s, written, eval⟩ := echo_eval (tape.write byte) rest []
      rw [Tape.read_write] at written eval
      exact ⟨s, written, .line rfl eval⟩

theorem exists_advance {k : Code} (program : k.program = Text.bytes Samples.cat) (tape : Tape)
    (input : List UInt8) :
    ∃ n c, k.advance n ⟨0, tape, input, []⟩ = some c ∧ c.output = input.takeWhile (· ≠ 0) ∧
      if 0 ∈ input then k.Halted c else k.Blocked c := by
  have text : Copying.program.text = k.program := text_program.trans program.symm
  obtain ⟨s, written, eval⟩ := program_eval tape input
  by_cases ends : 0 ∈ input
  · rw [if_pos ends] at eval
    obtain ⟨n, pc, run, halted⟩ := (Code.eval_done_iff text).mp eval
    exact ⟨n, s.config pc, run, written, by rwa [if_pos ends]⟩
  · rw [if_neg ends] at eval
    obtain ⟨n, pc, run, blocked⟩ := (Code.eval_stuck_iff text).mp eval
    exact ⟨n, s.config pc, run, written, by rwa [if_neg ends]⟩

end Copying

namespace Feed

/-! ## The tokens -/

/-- Some token of the input is too long, and no token before it ends the input. -/
inductive Overlong (f : Feeder) : List UInt8 → Prop
  | here {bytes : List UInt8} (next : f.scan bytes = .tooLong) : Overlong f bytes
  | later {bytes token rest framed : List UInt8}
      (next : f.scan bytes = .token token rest) (applied : f.frame token = .ok framed)
      (overlong : Overlong f rest) : Overlong f bytes

section Tokens

variable {f : Feeder} {bytes : List UInt8} {tokens : List (List UInt8)}

/-- A feeder of lines or of single bytes whose frame does not fail. -/
structure Feeder.Plain (f : Feeder) : Prop where
  split : f.split = .lines ∨ f.split = .bytes
  frame : ∀ token fault, f.frame token ≠ .error (.failed fault)

theorem Feeder.Plain.of_options (o : Command.Options) (raw : Bool) : (o.feeder raw).Plain := by
  constructor
  · by_cases bytes : raw || o.framing = .raw
    · exact Or.inr (if_pos bytes)
    · exact Or.inl (if_neg bytes)
  · intro token fault failed
    obtain ⟨framed, same⟩ := o.framing.exists_frame token
    cases raw with
    | false => cases same.symm.trans failed
    | true =>
        simp only [Command.Options.feeder, if_true, Frame.untilTransmission] at failed
        split at failed
        · cases failed
        · split at failed
          · cases failed
          · cases same.symm.trans failed

private theorem Feeder.Plain.scan_ne_failed (plain : f.Plain) (fault : Fault) :
    f.scan bytes ≠ .failed fault := by
  rw [Feeder.scan]
  rcases plain.split with lines | split
  · rw [lines]
    exact Split.lines_ne_failed fault
  · rw [split]
    intro failed
    cases bytes <;> cases failed

private theorem Feeder.Plain.length_lt {token rest : List UInt8} (plain : f.Plain)
    (next : f.scan bytes = .token token rest) : rest.length < bytes.length := by
  rw [Feeder.scan] at next
  rcases plain.split with lines | split
  · rw [lines] at next
    exact Split.length_lt_of_lines next
  · rw [split] at next
    cases bytes with
    | nil => cases next
    | cons c others =>
        cases next
        exact Nat.lt_succ_self _

private theorem exists_framed (plain : f.Plain) (short : ¬ Overlong f bytes) :
    ∃ tokens, Framed f bytes tokens := by
  generalize size : bytes.length = n
  induction n using Nat.strongRecOn generalizing bytes with
  | _ n ih =>
      cases next : f.scan bytes with
      | tooLong => exact absurd (.here next) short
      | failed fault => exact absurd next (plain.scan_ne_failed fault)
      | ended => exact ⟨[], .ended next⟩
      | token token rest =>
          cases applied : f.frame token with
          | error error =>
              cases error with
              | inputEnded => exact ⟨[], .closed next applied⟩
              | failed fault => exact absurd applied (plain.frame token fault)
          | ok framed =>
              have fewer := plain.length_lt next
              rw [size] at fewer
              obtain ⟨tokens, later⟩ :=
                ih _ fewer (fun overlong => short (.later next applied overlong)) rfl
              exact ⟨framed :: tokens, .token next applied later⟩

private theorem not_overlong_of_bytes (split : f.split = .bytes) : ¬ Overlong f bytes := by
  intro overlong
  induction overlong with
  | @here bytes next =>
      rw [Feeder.scan, split] at next
      cases bytes <;> cases next
  | later _ _ _ ih => exact ih

theorem Framed.flatten_raw (framed : Framed f bytes tokens) (split : f.split = .bytes)
    (frame : f.frame = .raw) : tokens.flatten = bytes := by
  induction framed with
  | ended nothing =>
      rw [Feeder.scan, split] at nothing
      exact (Split.bytes_eq_ended_iff.mp nothing).symm
  | closed next closes =>
      rw [frame] at closes
      cases closes
  | @token bytes token rest framed tokens next applied _ ih =>
      rw [frame] at applied
      rw [Feeder.scan, split] at next
      cases applied
      cases bytes with
      | nil => cases next
      | cons c others =>
          cases next
          rw [List.flatten_cons, ih]
          rfl

theorem Framed.flatten_lines (framed : Framed f bytes tokens) (split : f.split = .lines)
    (frame : f.frame = .lines) (plain : 13 ∉ bytes) (whole : bytes = [] ∨ bytes.getLast? = some 10) :
    tokens.flatten = bytes := by
  induction framed with
  | ended nothing =>
      rw [Feeder.scan, split] at nothing
      exact (Split.lines_eq_ended_iff.mp nothing).symm
  | closed next closes =>
      rw [frame] at closes
      cases closes
  | @token bytes token rest framed tokens next applied _ ih =>
      rw [frame] at applied
      rw [Feeder.scan, split] at next
      cases applied
      obtain ⟨line, rfl, _, _, rfl, later⟩ := Split.lines_of_whole whole next
      simp only [List.mem_append, List.mem_cons, not_or] at plain
      have kept : dropReturn line = line := if_neg fun last => plain.1 (List.mem_of_getLast? last)
      rw [List.flatten_cons, ih plain.2.2 later, kept]
      exact List.append_assoc line [10] rest

private theorem Framed.withTrace (framed : Framed f bytes tokens) (tracing : Bool) :
    Framed (f.withTrace tracing) bytes tokens := by
  induction framed with
  | ended nothing => exact .ended nothing
  | closed next closes => exact .closed next closes
  | token next applied _ ih => exact .token next applied ih

end Tokens

/-! ## How a feed ends -/

/-- The machine is in the run state that an ending tells of. -/
def Ending.Shows : Ending → Machine → Prop
  | .halted, m => m.state = .halted
  | .inputEnded, m => m.state = .waiting
  | .failed _, _ => True

section Shows

variable {f : Feeder} {s e : State} {fuel turns : Nat} {ending : Ending}

theorem state_ne_running_of_run {m m' : Machine} (ran : m.run fuel = some ⟨m', none⟩) :
    m'.state ≠ .running := by
  rcases m.idle_or_live with idle | ⟨prepared, live⟩
  · obtain ⟨e, _, refuses⟩ := Machine.runWithin_of_idle idle
    rw [Machine.run, refuses] at ran
    cases ran
  · rw [Machine.run, Machine.runWithin_of_live _ _ prepared live, Option.map_eq_some_iff] at ran
    obtain ⟨stop, ran, outcome⟩ := ran
    obtain ⟨last, _, stops⟩ := Machine.exec_eq_some ran
    cases stops with
    | bounded inside reached => cases reached
    | halted ended =>
        cases outcome
        exact RunState.noConfusion
    | starved wants empty =>
        cases outcome
        exact RunState.noConfusion
    | refused wants full => cases outcome

private theorem state_ne_running_of_runTraced {m : Machine} {j : Journal} {ran : Ran}
    (driven : runTraced fuel m j = some ran) (fine : ran.halt = none) :
    ran.machine.state ≠ .running := by
  induction fuel generalizing m j with
  | zero => cases driven
  | succ fuel ih =>
      simp only [runTraced] at driven
      split at driven
      · cases driven
        cases fine
      · split at driven
        · cases driven
        · cases driven
          cases fine
        · split at driven
          · exact ih driven
          · cases driven
            assumption

private theorem state_ne_running_of_runMachine {tracing : Bool} {m : Machine} {j : Journal}
    {ran : Ran} (driven : runMachine tracing fuel m j = some ran) (fine : ran.halt = none) :
    ran.machine.state ≠ .running := by
  unfold runMachine at driven
  split at driven
  · exact state_ne_running_of_runTraced driven fine
  · split at driven
    · cases driven
    case h_2 m' error ran' =>
      cases driven
      obtain rfl := Option.map_eq_none_iff.mp fine
      exact state_ne_running_of_run ran'

private theorem fetch_shows (waiting : s.machine.state = .waiting)
    (fetched : fetch f s = .done e ending) : ending.Shows e.machine := by
  have fetches := fetches f s
  rw [fetched] at fetches
  cases fetches with
  | failed _ stops =>
      cases stops
      trivial
  | ended _ _ stops =>
      cases stops
      exact waiting
  | @refused _ _ error _ _ stops =>
      cases stops
      cases error with
      | inputEnded => exact waiting
      | failed fault => trivial
  | framed _ _ goes => cases goes

private theorem conclude_shows {error : Option RunError}
    (stopped : error = none → s.machine.state ≠ .running)
    (concluded : conclude f s error = .done e ending) : ending.Shows e.machine := by
  have concludes := concludes f s error
  rw [concluded] at concludes
  cases concludes with
  | emptied _ again => cases again
  | failed _ stops =>
      cases stops
      trivial
  | fetched _ waiting _ goes => exact fetch_shows waiting goes.symm
  | given _ _ _ goes => cases goes
  | halted fine onward stops =>
      cases stops
      have stopped := stopped fine
      cases state : s.machine.state with
      | running => exact absurd state stopped
      | waiting => exact absurd state onward
      | halted => exact state

private theorem turn_shows (turned : turn f fuel s = some (.done e ending)) :
    ending.Shows e.machine := by
  rw [turn_eq_proceed, Option.map_eq_some_iff] at turned
  obtain ⟨ran, driven, proceeded⟩ := turned
  have proceeds := proceeds f s ran
  rw [proceeded] at proceeds
  cases proceeds with
  | failed cause stops =>
      cases stops
      rcases cause with ⟨fault, rfl⟩ | ⟨fault, rfl⟩ <;> trivial
  | concluded _ halt goes =>
      refine conclude_shows ?_ goes.symm
      intro fine
      rw [fine] at halt
      exact state_ne_running_of_runMachine driven halt

private theorem feedWithin_shows (fed : feedWithin f fuel turns s = some (e, ending)) :
    ending.Shows e.machine := by
  induction turns generalizing s with
  | zero => cases fed
  | succ turns ih =>
      rw [feedWithin] at fed
      split at fed
      · cases fed
      · exact ih fed
      case h_3 turned =>
        cases fed
        exact turn_shows turned

end Shows

/-! ## Copying -/

/-- The end of a feed that has copied bytes: they have been written up to a 0 byte, at which the program
ends. -/
structure Copied (bytes : List UInt8) (e : State) (ending : Ending) : Prop where
  written : e.output.accepted.toList = bytes.takeWhile (· ≠ 0)
  halted : 0 ∈ bytes → ending = .halted ∧ e.machine.state = .halted
  waiting : 0 ∉ bytes → ending = .inputEnded ∧ e.machine.state = .waiting

/-- A feed returns, and whenever it does it has copied bytes. -/
structure Copies (f : Feeder) (s : State) (bytes : List UInt8) : Prop where
  returns : ∃ fuel e, feed f fuel s = some e
  copied : ∀ fuel e ending, feed f fuel s = some (e, ending) → Copied bytes e ending

section Copies

variable {k : Code} {f : Feeder} {m : Machine} {bytes copy : List UInt8}
  {tokens : List (List UInt8)} {journal : Journal}

private theorem Feeding.copies (program : k.program = Text.bytes Samples.cat) (pc : m.pc = 0)
    (fresh : m.input.unread = []) (drained : m.output.unread = [])
    (feeding : Feeding k f (.start m (.ofBytes bytes) .unlimited journal) tokens) :
    Copies f (.start m (.ofBytes bytes) .unlimited journal) tokens.flatten := by
  obtain ⟨n, c, run, output, stops⟩ := Copying.exists_advance program m.tape tokens.flatten
  have ideal (r : Report) := feeds_iff feeding r
  rw [pc, fresh, drained, List.nil_append] at ideal
  have ends : k.Halted c ∨ k.Blocked c := by
    split at stops
    · exact Or.inl stops
    · exact Or.inr stops
  constructor
  · obtain ⟨ending, same⟩ : ∃ ending : Ending,
        ending = .halted ∧ k.Halted c ∨ ending = .inputEnded ∧ k.Blocked c := by
      rcases ends with halted | blocked
      · exact ⟨.halted, Or.inl ⟨rfl, halted⟩⟩
      · exact ⟨.inputEnded, Or.inr ⟨rfl, blocked⟩⟩
    obtain ⟨fuel, e, ending, fed, _⟩ := (ideal ⟨ending, c.output, c.pc, c.tape, _⟩).mpr
      ⟨n, c, run, same, rfl, rfl, rfl, rfl⟩
    exact ⟨fuel, (e, ending), fed⟩
  · intro fuel e ending fed
    have shows := feedWithin_shows fed
    obtain ⟨n', c', run', same, written, _⟩ := (ideal _).mp ⟨fuel, e, ending, fed, rfl⟩
    have stopped' : k.next? c' = none := Code.next?_eq_none_iff.mpr (same.imp And.right And.right)
    obtain ⟨rfl, rfl⟩ := Code.stopped_unique run (Code.next?_eq_none_iff.mpr ends) run' stopped'
    refine ⟨written.trans output, ?_, ?_⟩
    · intro zero
      rw [if_pos zero] at stops
      rcases same with ⟨rfl, _⟩ | ⟨_, blocked⟩
      · exact ⟨rfl, shows⟩
      · exact absurd stops (Code.not_halted_of_blocked blocked)
    · intro nonzero
      rw [if_neg nonzero] at stops
      rcases same with ⟨_, halted⟩ | ⟨rfl, _⟩
      · exact absurd halted (Code.not_halted_of_blocked stops)
      · exact ⟨rfl, shows⟩

private theorem Copies.traced {s : State} (consistent : s.machine.Consistent)
    (unlimited : s.journal.room = none) (copies : Copies (f.withTrace false) s copy) :
    Copies (f.withTrace true) s copy := by
  have start : s.Traces s := ⟨rfl, rfl, rfl, rfl, ⟨unlimited, fun _ => rfl⟩, consistent⟩
  constructor
  · obtain ⟨fuel, ⟨e', ending⟩, fed⟩ := copies.returns
    obtain ⟨e, fed', _⟩ := start.feed_traced fed
    exact ⟨fuel + 1, (e, ending), fed'⟩
  · intro fuel e ending fed
    obtain ⟨e', fed', same⟩ := start.feed_untraced fed
    have copied := copies.copied _ _ _ fed'
    refine ⟨?_, ?_, ?_⟩
    · rw [same.output]
      exact copied.written
    · rw [same.machine]
      exact copied.halted
    · rw [same.machine]
      exact copied.waiting

end Copies

/-- A feed of the freshly loaded copying program by a plain feeder returns, whatever the sizes of the
machine and the frame, with a trace or without one, if no line is too long. It has copied the framed
tokens: they have been written up to a 0 byte among them, if there is one the machine has halted, and
otherwise the input has ended and it waits. The framed tokens are the input itself where they are single
bytes, and where they are lines that all end with a line feed and have no carriage return. -/
theorem cat_copies {start : Machine} (reachable : start.Reachable) {f : Feeder} (feeder : f.Plain)
    (bytes : List UInt8) (short : f.split = .lines → ¬ Overlong f bytes) (journal : Journal)
    (unlimited : f.tracing = true → journal.room = none) :
    ∃ m tokens, start.prepare (Text.bytes Samples.cat) = .ok m ∧ Framed f bytes tokens ∧
      Copies f (.start m (.ofBytes bytes) .unlimited journal) tokens.flatten ∧
      (f.split = .bytes → f.frame = .raw → tokens.flatten = bytes) ∧
      (f.split = .lines → f.frame = .lines → 13 ∉ bytes →
        bytes = [] ∨ bytes.getLast? = some 10 → tokens.flatten = bytes) := by
  obtain ⟨jumps, linked⟩ := Copying.program.exists_link_text
  rw [Copying.text_program] at linked
  let k : Code := ⟨Text.bytes Samples.cat, jumps, linked⟩
  let m := start.loaded (Text.bytes Samples.cat) jumps
  have prepared : start.prepare (Text.bytes Samples.cat) = .ok m :=
    Machine.prepare_eq_ok_iff.mpr ⟨jumps, linked, rfl⟩
  have loaded := reachable.of_prepare prepared
  have fits : ¬ Overlong f bytes := by
    rcases feeder.split with lines | split
    · exact short lines
    · exact not_overlong_of_bytes split
  obtain ⟨tokens, framed⟩ := exists_framed feeder fits
  have untraced : Copies (f.withTrace false) (.start m (.ofBytes bytes) .unlimited journal)
      tokens.flatten := by
    have feeding : Feeding k (f.withTrace false) (.start m (.ofBytes bytes) .unlimited journal) tokens :=
      feeding_start journal loaded rfl rfl RunState.noConfusion rfl (framed.withTrace false)
    exact feeding.copies rfl rfl start.input.unread_reset start.output.unread_reset
  refine ⟨m, tokens, prepared, framed, ?_, framed.flatten_raw, ?_⟩
  · obtain ⟨split, frame, maxToken, tracing⟩ := f
    cases tracing with
    | false => exact untraced
    | true => exact untraced.traced loaded.consistent (unlimited rfl)
  · intro split frame plain whole
    exact framed.flatten_lines split frame plain whole

/-- Two lines with a 0 byte at the start of the second one, through queues of one byte and with a trace.
-/
theorem cat_copies_line : ∃ m fuel e,
    (Machine.ofSizes ⟨1, 1, 1, by decide, by decide, by decide⟩).prepare (Text.bytes Samples.cat) =
      .ok m ∧
    feed { maxToken := 3, tracing := true } fuel
      (.start m (.ofBytes [97, 98, 10, 0, 99, 10]) .unlimited .unlimited) = some (e, .halted) ∧
    e.output.accepted.toList = [97, 98, 10] ∧ e.machine.state = .halted := by
  let f : Feeder := { maxToken := 3, tracing := true }
  have plain : f.Plain := by
    refine ⟨Or.inl rfl, fun token fault failed => ?_⟩
    cases failed
  have first : f.scan [97, 98, 10, 0, 99, 10] = .token [97, 98] [0, 99, 10] := by decide +kernel
  have second : f.scan [0, 99, 10] = .token [0, 99] [] := by decide +kernel
  have short : ¬ Overlong f [97, 98, 10, 0, 99, 10] := by
    intro overlong
    cases overlong with
    | here next => cases first.symm.trans next
    | later next _ overlong =>
        cases first.symm.trans next
        cases overlong with
        | here next => cases second.symm.trans next
        | later next _ overlong =>
            cases second.symm.trans next
            cases overlong with
            | here next => cases next
            | later next => cases next
  obtain ⟨m, tokens, prepared, _, copies, _, same⟩ :=
    cat_copies ⟨[(.cells, 1), (.input, 1), (.output, 1)], _, rfl, .refl⟩ plain [97, 98, 10, 0, 99, 10]
      (fun _ => short) .unlimited (fun _ => rfl)
  rw [same rfl rfl (by decide) (Or.inr rfl)] at copies
  obtain ⟨fuel, ⟨e, ending⟩, fed⟩ := copies.returns
  have copied := copies.copied _ _ _ fed
  obtain ⟨rfl, halted⟩ := copied.halted (by decide)
  exact ⟨m, fuel, e, prepared, fed, copied.written, halted⟩

end Feed

end TapeMachine
