import Mathlib.Data.List.Defs
import TapeMachine.Proofs.Erasure
import TapeMachine.Proofs.Scripts
import TapeMachine.Proofs.Stripping
/-!
# Comments do nothing

A machine that runs a program and one that runs it without its comments differ in where they are in
their code and in how many instructions they have counted, and in nothing else. An instruction takes
both of them on; a comment takes on the first one only, and leaves it at the same instruction. There
are finitely many comments on the way to the next instruction, so that a run of one of them returns
when a run of the other does.
-/

set_option autoImplicit false
set_option relaxedAutoImplicit false

namespace TapeMachine

namespace Machine

variable {k k₁ s s₁ t : Machine}

/-- The machine with the code of another one, at the other one's place in it. -/
def withCode (m other : Machine) : Machine :=
  { m with program := other.program, jumps := other.jumps, pc := other.pc, count := other.count }

def nextPc (m : Machine) : Option Instruction → Nat
  | some .loopStart => m.loopTarget m.pc
  | some .loopEnd => m.loopTarget (m.jumps.partner m.pc)
  | _ => m.pc + 1

private theorem execute_withCode (s : Machine) {i : Option Instruction}
    (done : k.execute i = .executed k₁) :
    k₁.pc = k.nextPc i ∧ (k.withCode s).execute i =
      .executed (k₁.withCode (s.goto ((k.withCode s).nextPc i))) := by
  cases i with
  | none =>
      simp only [execute, Attempt.executed.injEq] at done
      subst done
      exact ⟨rfl, rfl⟩
  | some i =>
      cases i
      case input =>
        cases next : k.input.next? with
        | none => simp [execute, next] at done
        | some taken =>
            simp only [execute, next, Attempt.executed.injEq] at done
            subst done
            refine ⟨rfl, ?_⟩
            simp only [execute, withCode, next]
            rfl
      case output =>
        by_cases room : k.output.length < k.output.capacity
        · simp only [execute, dif_pos room, Attempt.executed.injEq] at done
          subst done
          exact ⟨rfl, dif_pos room⟩
        · simp [execute, room] at done
      all_goals
        simp only [execute, Attempt.executed.injEq] at done
        subst done
        exact ⟨rfl, rfl⟩

private theorem Alike.withCode (alike : k.Alike s) (t : Machine) : (k.withCode t).Alike
    (s.withCode t) :=
  ⟨rfl, rfl, rfl, alike.state, alike.prepared, alike.tape, alike.input, alike.output, rfl⟩

/-- The second machine is like the first one, but its program has no comments. It stands at the same
instruction. -/
structure Stripped (k s : Machine) : Prop where
  linked : link k.program.toList = .ok k.jumps
  linked' : link s.program.toList = .ok s.jumps
  program : s.program.toList = strip k.program.toList
  pc : s.pc = rank k.program.toList k.pc
  alike : (k.withCode s).Alike s

namespace Stripped

private theorem move (same : k.Stripped s) (frame : k.SameFrame k₁) (program : t.program = s.program)
    (jumps : t.jumps = s.jumps) (pc : t.pc = rank k.program.toList k₁.pc)
    (alike : (k₁.withCode t).Alike s₁) : k₁.Stripped s₁ := by
  have program₁ : s₁.program = s.program := alike.program.symm.trans program
  have jumps₁ : s₁.jumps = s.jumps := alike.jumps.symm.trans jumps
  have pc₁ : s₁.pc = rank k.program.toList k₁.pc := alike.pc.symm.trans pc
  refine ⟨?_, ?_, ?_, ?_, ?_⟩
  · rw [frame.program, frame.jumps]
    exact same.linked
  · rw [program₁, jumps₁]
    exact same.linked'
  · rw [program₁, frame.program]
    exact same.program
  · rw [pc₁, frame.program]
  · exact alike.withCode s₁

private theorem fetch (same : k.Stripped s) {c : UInt8} {i : Instruction}
    (fetched : k.program[k.pc]? = some c) (known : Instruction.ofByte? c = some i) :
    s.program[s.pc]? = some c := by
  rw [← Array.getElem?_toList] at fetched ⊢
  rw [same.program, same.pc]
  exact getElem?_strip_rank fetched known

private theorem partner (same : k.Stripped s) {offset : Nat} {c : UInt8} {i : Instruction}
    (found : k.program.toList[offset]? = some c) (known : Instruction.ofByte? c = some i)
    (bracket : i.IsBracket) :
    s.jumps.partner (rank k.program.toList offset) = rank k.program.toList (k.jumps.partner offset) := by
  have linked' := same.linked'
  rw [same.program] at linked'
  exact partner_rank same.linked linked' found known bracket

private theorem loopTarget (same : k.Stripped s) {offset : Nat} {c : UInt8} {i : Instruction}
    (found : k.program.toList[offset]? = some c) (known : Instruction.ofByte? c = some i)
    (bracket : i.IsBracket) :
    (k.withCode s).loopTarget (rank k.program.toList offset) =
      rank k.program.toList (k.loopTarget offset) := by
  obtain ⟨c', i', found', known', _⟩ := exists_bracket_partner same.linked found known bracket
  have leave := rank_succ_of_some found' known'
  have enter := rank_succ_of_some found known
  have test : (k.withCode s).loopTarget (rank k.program.toList offset) =
      if k.tape.read = 0 then s.jumps.partner (rank k.program.toList offset) + 1
      else rank k.program.toList offset + 1 := rfl
  rw [test, same.partner found known bracket, Machine.loopTarget]
  by_cases zero : k.tape.read = 0
  · rw [if_pos zero, if_pos zero, leave]
  · rw [if_neg zero, if_neg zero, enter]

private theorem nextPc (same : k.Stripped s) {c : UInt8} {i : Instruction}
    (fetched : k.program[k.pc]? = some c) (known : Instruction.ofByte? c = some i) :
    (k.withCode s).nextPc (some i) = rank k.program.toList (k.nextPc (some i)) := by
  rw [← Array.getElem?_toList] at fetched
  have next : s.pc + 1 = rank k.program.toList (k.pc + 1) := by
    rw [same.pc, rank_succ_of_some fetched known]
  cases i
  case loopStart =>
    have target := same.loopTarget fetched known (Or.inl rfl)
    rw [← same.pc] at target
    exact target
  case loopEnd =>
    have start := same.partner fetched known (Or.inr rfl)
    obtain ⟨c', i', found', known', bracket⟩ :=
      exists_bracket_partner same.linked fetched known (Or.inr rfl)
    have target := same.loopTarget found' known' bracket
    rw [← start, ← same.pc] at target
    exact target
  all_goals exact next

private theorem comment (same : k.Stripped s) {c : UInt8} (fetched : k.program[k.pc]? = some c)
    (comment : Instruction.ofByte? c = none) :
    k.Executes (k.goto (k.pc + 1)) ∧ (k.goto (k.pc + 1)).Stripped s := by
  have first : k.Executes (k.goto (k.pc + 1)) := ⟨c, fetched, by rw [comment]; rfl⟩
  rw [← Array.getElem?_toList] at fetched
  have pc : s.pc = rank k.program.toList (k.pc + 1) := by
    rw [same.pc, rank_succ_of_none fetched comment]
  exact ⟨first, same.move first.sameFrame rfl rfl pc same.alike⟩

private theorem instruction (same : k.Stripped s) {c : UInt8} {i : Instruction}
    (fetched : k.program[k.pc]? = some c) (known : Instruction.ofByte? c = some i)
    (done : k.execute (some i) = .executed k₁) : ∃ s₁, s.Executes s₁ ∧ k₁.Stripped s₁ := by
  obtain ⟨pc, done'⟩ := execute_withCode s done
  have attempts := same.alike.execute (some i)
  rw [done'] at attempts
  generalize attempt : s.execute (some i) = outcome at attempts
  cases attempts with
  | @executed _ s₁ alike =>
      have first : s.Executes s₁ := ⟨c, same.fetch fetched known, by rw [known]; exact attempt⟩
      have target := same.nextPc fetched known
      rw [← pc] at target
      exact ⟨s₁, first, same.move (t := s.goto _) (execute_frame done).1 rfl rfl target alike⟩

end Stripped

end Machine

structure Outcome.Stripped (out out' : Outcome) : Prop where
  machine : out.machine.Stripped out'.machine
  cause : out.error.map (·.report.cause) = out'.error.map (·.report.cause)

namespace Machine

variable {k k₁ s s₁ : Machine} {n n' : Nat} {stop stop' : Stop}

private theorem Stripped.stopsAs (same : k.Stripped s) (stops : StopsAs .unbounded 0 k stop) :
    ∃ stop', StopsAs .unbounded 0 s stop' ∧ stop.outcome.Stripped stop'.outcome := by
  have renew (state : RunState) :
      Stripped { k with state := state } { s with state := state } :=
    ⟨same.linked, same.linked', same.program, same.pc, { same.alike with state := rfl }⟩
  cases stops with
  | halted ended =>
      rw [← Array.length_toList] at ended
      have ended' : s.program.size = s.pc := by
        rw [← Array.length_toList, same.program, same.pc, rank_of_length_le ended]
      exact ⟨_, .halted (Nat.le_of_eq ended'), renew .halted, rfl⟩
  | bounded inside reached => cases reached
  | starved wants empty =>
      have wants' := same.fetch wants (Instruction.ofByte?_toByte _)
      have empty' : s.input.unread = [] := same.alike.input.unread.symm.trans empty
      exact ⟨_, .starved wants' empty', renew .waiting, rfl⟩
  | refused wants full =>
      have wants' := same.fetch wants (Instruction.ofByte?_toByte _)
      have full' : s.output.capacity ≤ s.output.length := by
        rw [← same.alike.output.capacity, ← same.alike.output.length]
        exact full
      exact ⟨_, .refused wants' full', same, rfl⟩

private theorem Stripped.finishes (same : k.Stripped s) (finishes : Finishes n k stop) :
    ∃ n' stop', n' ≤ n ∧ Finishes n' s stop' ∧ stop.outcome.Stripped stop'.outcome := by
  induction finishes generalizing s with
  | stop stops =>
      obtain ⟨stop', stops', outcome⟩ := same.stopsAs stops
      exact ⟨0, stop', Nat.le_refl 0, .stop stops', outcome⟩
  | step first _ ih =>
      obtain ⟨c, fetched, done⟩ := first
      -- A comment is an instruction of the one run only.
      cases known : Instruction.ofByte? c with
      | none =>
          obtain ⟨first', same'⟩ := same.comment fetched known
          rw [first'.unique ⟨c, fetched, done⟩] at same'
          obtain ⟨n', stop', fewer, finishes', outcome⟩ := ih same'
          exact ⟨n', stop', Nat.le_succ_of_le fewer, finishes', outcome⟩
      | some i =>
          rw [known] at done
          obtain ⟨s₁, first', same'⟩ := same.instruction fetched known done
          obtain ⟨n', stop', fewer, finishes', outcome⟩ := ih same'
          exact ⟨n' + 1, stop', Nat.succ_le_succ fewer, .step first' finishes', outcome⟩

private theorem Stripped.onward (same : k.Stripped s) :
    (∃ n stop, Finishes n k stop) ∨
      ∃ n k₁ s₁, Runs n k k₁ ∧ s.Executes s₁ ∧ k₁.Stripped s₁ := by
  -- Each comment brings the end of the program nearer.
  generalize gap : k.program.size - k.pc = left
  induction left using Nat.strongRecOn generalizing k with
  | ind left ih =>
      rcases k.executes_or_stopsAs with ⟨k₁, first⟩ | ⟨stop, stops⟩
      · have inside := first.inside
        obtain ⟨c, fetched, done⟩ := first
        cases known : Instruction.ofByte? c with
        | none =>
            obtain ⟨first, same'⟩ := same.comment fetched known
            have nearer : (k.goto (k.pc + 1)).program.size - (k.goto (k.pc + 1)).pc < left := by
              simp only [goto]
              omega
            rcases ih _ nearer same' rfl with ⟨n, stop, rest⟩ | ⟨n, k₁, s₁, rest, first', same₁⟩
            · exact Or.inl ⟨n + 1, stop, .step first rest⟩
            · exact Or.inr ⟨n + 1, k₁, s₁, .step first rest, first', same₁⟩
        | some i =>
            have first : k.Executes k₁ := ⟨c, fetched, done⟩
            rw [known] at done
            obtain ⟨s₁, first', same₁⟩ := same.instruction fetched known done
            exact Or.inr ⟨1, k₁, s₁, .step first (.refl k₁), first', same₁⟩
      · exact Or.inl ⟨0, stop, .stop stops⟩

private theorem Stripped.exists_finishes (same : k.Stripped s) (finishes : Finishes n' s stop') :
    ∃ n stop, Finishes n k stop := by
  induction finishes generalizing k with
  | stop stops =>
      rcases same.onward with found | ⟨_, _, s₁, _, first, _⟩
      · exact found
      · exact absurd first stops.not_executes
  | step first _ ih =>
      rcases same.onward with found | ⟨n, k₁, s₁, runs, first', same₁⟩
      · exact found
      · rw [← first.unique first'] at same₁
        obtain ⟨n₁, stop, rest⟩ := ih same₁
        exact ⟨n + n₁, stop, runs.finishes rest⟩

private theorem Stripped.idle_or_live (same : k.Stripped s) :
    (∃ e e' : RunError, e.report.cause = e'.report.cause ∧ ∀ fuel,
      k.run fuel = some ⟨k, some e⟩ ∧ s.run fuel = some ⟨s, some e'⟩ ∧
        s.executed .unbounded fuel = 0) ∨
      (k.prepared = true ∧ k.state ≠ .halted) ∧ s.prepared = true ∧ s.state ≠ .halted := by
  have prepared : k.prepared = s.prepared := same.alike.prepared
  have state : k.state = s.state := same.alike.state
  by_cases live : k.prepared = true ∧ k.state ≠ .halted
  · have live' := live
    rw [prepared, state] at live'
    exact Or.inr ⟨live, live'⟩
  · have live' := live
    rw [prepared, state] at live'
    have idle {m : Machine} (stuck : ¬ (m.prepared = true ∧ m.state ≠ .halted)) :
        m.prepared = false ∨ m.state = .halted := by
      simpa [Decidable.or_iff_not_imp_left] using stuck
    obtain ⟨e, cause, refuses⟩ := runWithin_of_idle (idle live)
    obtain ⟨e', cause', refuses'⟩ := runWithin_of_idle (idle live')
    refine Or.inl ⟨e, e', cause.trans cause'.symm, fun fuel => ?_⟩
    exact ⟨refuses .unbounded fuel, refuses' .unbounded fuel, if_neg live'⟩

private theorem Stripped.exists_run_iff (same : k.Stripped s) :
    (∃ fuel out, k.run fuel = some out) ↔ ∃ fuel out, s.run fuel = some out := by
  rcases same.idle_or_live with ⟨e, e', _, refuses⟩ | ⟨⟨prepared, live⟩, prepared', live'⟩
  · obtain ⟨refused, refused', _⟩ := refuses 0
    exact ⟨fun _ => ⟨0, _, refused'⟩, fun _ => ⟨0, _, refused⟩⟩
  · constructor
    · rintro ⟨fuel, out, ran⟩
      obtain ⟨stop, finishes, _⟩ := finishes_of_run prepared live ran
      obtain ⟨n', stop', _, finishes', _⟩ := same.finishes finishes
      exact ⟨n' + 1, _, finishes'.run prepared' live'⟩
    · rintro ⟨fuel, out, ran⟩
      obtain ⟨stop', finishes', _⟩ := finishes_of_run prepared' live' ran
      obtain ⟨n, stop, finishes⟩ := same.exists_finishes finishes'
      exact ⟨n + 1, _, finishes.run prepared live⟩

private theorem Stripped.run {fuel fuel' : Nat} {out out' : Outcome} (same : k.Stripped s)
    (ran : k.run fuel = some out) (ran' : s.run fuel' = some out') :
    out.Stripped out' ∧ s.executed .unbounded fuel' ≤ k.executed .unbounded fuel := by
  rcases same.idle_or_live with ⟨e, e', cause, refuses⟩ | ⟨⟨prepared, live⟩, prepared', live'⟩
  · obtain ⟨refused, _, _⟩ := refuses fuel
    obtain ⟨_, refused', none_executed⟩ := refuses fuel'
    rw [refused, Option.some.injEq] at ran
    rw [refused', Option.some.injEq] at ran'
    subst ran ran'
    rw [none_executed]
    exact ⟨⟨same, congrArg some cause⟩, Nat.zero_le _⟩
  · obtain ⟨stop, finishes, rfl⟩ := finishes_of_run prepared live ran
    obtain ⟨stop', finishes', rfl⟩ := finishes_of_run prepared' live' ran'
    obtain ⟨n', stop₁, fewer, finishes₁, outcome⟩ := same.finishes finishes
    obtain ⟨rfl, rfl⟩ := finishes'.unique finishes₁
    exact ⟨outcome, fewer⟩

end Machine

/-- Answers that agree but for the offset in the error of a run: the cause of that error is the
same. -/
def Answer.Agrees : Answer → Answer → Prop
  | .ran waiting error, .ran waiting' error' =>
    waiting = waiting' ∧ error.map (·.report.cause) = error'.map (·.report.cause)
  | answer, answer' => answer = answer'

theorem Answer.Agrees.refl (answer : Answer) : answer.Agrees answer := by
  cases answer with
  | ran waiting error => exact ⟨rfl, rfl⟩
  | _ => rfl

namespace Machine

variable {k k₁ s s₁ : Machine} {d : Demand} {answer answer' : Answer} {fuel fuel' : Nat}

private theorem resume_withCode (k s : Machine) : (k.withCode s).resume = k.resume.withCode s := by
  rw [resume_eq, resume_eq]
  rfl

private theorem perform_withCode (s : Machine) (quiet : d ≠ .run)
    (done : (d.call fuel).perform k = some (k₁, answer)) :
    (d.call fuel).perform (k.withCode s) = some (k₁.withCode s, answer) ∧ k₁.pc = k.pc := by
  cases d with
  | run => exact absurd rfl quiet
  | appendInput bytes =>
      cases appended : k.input.appendAll bytes with
      | error full =>
          simp only [Demand.call, Call.perform, appendInput, appended, Option.some.injEq,
            Prod.mk.injEq] at done
          obtain ⟨rfl, rfl⟩ := done
          refine ⟨?_, rfl⟩
          simp only [Demand.call, Call.perform, appendInput, withCode, appended]
      | ok queue =>
          simp only [Demand.call, Call.perform, appendInput, appended, Option.some.injEq,
            Prod.mk.injEq] at done
          obtain ⟨rfl, rfl⟩ := done
          refine ⟨?_, ?_⟩
          · rw [← resume_withCode]
            simp only [Demand.call, Call.perform, appendInput, withCode, appended]
          · rw [resume_eq]
  | write bytes =>
      rcases written : k.input.write bytes with ⟨queue, accepted, refusal⟩
      simp only [Demand.call, Call.perform, writeInput, written, Option.some.injEq,
        Prod.mk.injEq] at done
      obtain ⟨rfl, rfl⟩ := done
      refine ⟨?_, ?_⟩
      · rw [← resume_withCode]
        simp only [Demand.call, Call.perform, writeInput, withCode, written]
      · rw [resume_eq]
  | nextOutput =>
      cases next : k.output.next? with
      | none =>
          simp only [Demand.call, Call.perform, nextOutput?, next, Option.some.injEq,
            Prod.mk.injEq] at done
          obtain ⟨rfl, rfl⟩ := done
          refine ⟨?_, rfl⟩
          simp only [Demand.call, Call.perform, nextOutput?, withCode, next]
      | some taken =>
          simp only [Demand.call, Call.perform, nextOutput?, next, Option.some.injEq,
            Prod.mk.injEq] at done
          obtain ⟨rfl, rfl⟩ := done
          refine ⟨?_, rfl⟩
          simp only [Demand.call, Call.perform, nextOutput?, withCode, next]
  | drainOutput =>
      cases done
      exact ⟨rfl, rfl⟩

private theorem Stripped.perform_of_quiet (same : k.Stripped s) (quiet : d ≠ .run)
    (done : (d.call fuel).perform k = some (k₁, answer)) :
    ∃ s₁, (d.call fuel).perform s = some (s₁, answer) ∧ k₁.Stripped s₁ := by
  obtain ⟨done', pc⟩ := perform_withCode s quiet done
  have replies := same.alike.call (d.call fuel)
  rw [done'] at replies
  generalize replied : (d.call fuel).perform s = reply at replies
  cases replies with
  | @some _ reply replies =>
      obtain ⟨s₁, answer₁⟩ := reply
      obtain ⟨alike, rfl⟩ := replies
      have frame := ((d.call fuel).does done).sameFrame
      have place : s.pc = rank k.program.toList k₁.pc := by rw [pc, same.pc]
      exact ⟨s₁, rfl, same.move frame rfl rfl place alike⟩

private theorem Stripped.returns_iff (same : k.Stripped s) (d : Demand) :
    (∃ fuel reply, (d.call fuel).perform k = some reply) ↔
      ∃ fuel reply, (d.call fuel).perform s = some reply := by
  by_cases run : d = .run
  · subst run
    have runs := same.exists_run_iff
    simp only [Demand.call, Call.perform, Option.map_eq_some_iff]
    constructor
    · rintro ⟨fuel, _, out, ran, _⟩
      obtain ⟨fuel', out', ran'⟩ := runs.mp ⟨fuel, out, ran⟩
      exact ⟨fuel', _, out', ran', rfl⟩
    · rintro ⟨fuel, _, out, ran, _⟩
      obtain ⟨fuel', out', ran'⟩ := runs.mpr ⟨fuel, out, ran⟩
      exact ⟨fuel', _, out', ran', rfl⟩
  · exact ⟨fun _ => ⟨0, exists_perform_of_quiet s run 0⟩,
      fun _ => ⟨0, exists_perform_of_quiet k run 0⟩⟩

private theorem Stripped.demand (same : k.Stripped s)
    (done : (d.call fuel).perform k = some (k₁, answer))
    (done' : (d.call fuel').perform s = some (s₁, answer')) :
    k₁.Stripped s₁ ∧ answer.Agrees answer' ∧
      (d.call fuel').executes s ≤ (d.call fuel).executes k := by
  by_cases run : d = .run
  · subst run
    obtain ⟨out, ran, reply⟩ := Option.map_eq_some_iff.mp done
    obtain ⟨out', ran', reply'⟩ := Option.map_eq_some_iff.mp done'
    obtain ⟨outcome, fewer⟩ := same.run ran ran'
    cases reply
    cases reply'
    have waiting : out.machine.isWaiting = out'.machine.isWaiting :=
      congrArg (· == RunState.waiting) outcome.machine.alike.state
    exact ⟨outcome.machine, ⟨waiting, outcome.cause⟩, fewer⟩
  · obtain ⟨same_call, none_executed⟩ := Demand.call_of_quiet run fuel' fuel
    obtain ⟨s₂, replied, same₁⟩ := same.perform_of_quiet run done
    rw [same_call, replied] at done'
    cases done'
    rw [none_executed]
    exact ⟨same₁, .refl answer, Nat.zero_le _⟩

variable {j j' : Machine} {script : List Demand} {answers answers' : List Answer} {n n' : Nat}

theorem Stripped.plays (same : k.Stripped s) (plays : k.Plays script answers n j)
    (plays' : s.Plays script answers' n' j') :
    j.Stripped j' ∧ List.Forall₂ Answer.Agrees answers answers' ∧ n' ≤ n := by
  induction plays generalizing s answers' n' with
  | nil m =>
      cases plays'
      exact ⟨same, .nil, Nat.le_refl 0⟩
  | cons fuel done _ ih =>
      cases plays' with
      | cons fuel' done' rest' =>
          obtain ⟨same₁, agrees, fewer⟩ := same.demand done done'
          obtain ⟨last, others, fewer'⟩ := ih same₁ rest'
          exact ⟨last, .cons agrees others, Nat.add_le_add fewer fewer'⟩

theorem Stripped.exists_plays_iff (same : k.Stripped s) (script : List Demand) :
    (∃ answers n j, k.Plays script answers n j) ↔ ∃ answers n j, s.Plays script answers n j := by
  induction script generalizing k s with
  | nil => exact ⟨fun _ => ⟨_, _, _, .nil s⟩, fun _ => ⟨_, _, _, .nil k⟩⟩
  | cons d script ih =>
      constructor
      · rintro ⟨_, _, _, played⟩
        cases played with
        | cons fuel done rest =>
            obtain ⟨fuel', ⟨s₁, answer'⟩, done'⟩ := (same.returns_iff d).mp ⟨fuel, _, done⟩
            obtain ⟨same₁, _, _⟩ := same.demand done done'
            obtain ⟨_, _, _, rest'⟩ := (ih same₁).mp ⟨_, _, _, rest⟩
            exact ⟨_, _, _, .cons fuel' done' rest'⟩
      · rintro ⟨_, _, _, played⟩
        cases played with
        | cons fuel' done' rest' =>
            obtain ⟨fuel, ⟨k₁, answer⟩, done⟩ := (same.returns_iff d).mpr ⟨fuel', _, done'⟩
            obtain ⟨same₁, _, _⟩ := same.demand done done'
            obtain ⟨_, _, _, rest⟩ := (ih same₁).mpr ⟨_, _, _, rest'⟩
            exact ⟨_, _, _, .cons fuel done rest⟩

private theorem SameSizes.stripped_loaded {m m' : Machine} {program : List UInt8}
    {jumps jumps' : JumpTable} (same : m.SameSizes m') (linked : link program = .ok jumps)
    (linked' : link (strip program) = .ok jumps') :
    (m.loaded program jumps).Stripped (m'.loaded (strip program) jumps') := by
  have alike := same.alike_loaded program jumps
  exact ⟨linked, linked', rfl, (rank_zero program).symm, alike.withCode (m'.loaded (strip program) jumps')⟩

/-- A program links if and only if it does without its comments. Of two machines of the same sizes let
one load the program and the other the program without its comments. Then a script of calls returns on
both or on none of them; after every call the answers agree, tape, unread input, unread output and run
state are the same, the program counter without comments is the number of instructions before the
program counter with them, and no more instructions have been executed and counted without comments
than with them. -/
theorem comments_transparent (program : List UInt8) :
    ((∃ jumps, link program = .ok jumps) ↔ ∃ jumps, link (strip program) = .ok jumps) ∧
    ∀ m m' k k' : Machine, m.SameSizes m' → m.prepare program = .ok k →
      m'.prepare (strip program) = .ok k' → ∀ script,
      ((∃ answers n j, k.Plays script answers n j) ↔
        ∃ answers' n' j', k'.Plays script answers' n' j') ∧
      ∀ answers n j answers' n' j', k.Plays script answers n j → k'.Plays script answers' n' j' →
        List.Forall₂ Answer.Agrees answers answers' ∧ j.tape = j'.tape ∧
          j.input.unread = j'.input.unread ∧ j.output.unread = j'.output.unread ∧
          j.state = j'.state ∧ j'.pc = rank program j.pc ∧ n' ≤ n ∧
          j.count = Int64.ofNat n ∧ j'.count = Int64.ofNat n' ∧
          (n < 0x8000000000000000 → j'.count ≤ j.count) := by
  refine ⟨(exists_link_strip_iff program).symm, ?_⟩
  intro m m' k k' sizes prepared prepared' script
  obtain ⟨jumps, linked, rfl⟩ := prepare_eq_ok_iff.mp prepared
  obtain ⟨jumps', linked', rfl⟩ := prepare_eq_ok_iff.mp prepared'
  have same := sizes.stripped_loaded linked linked'
  refine ⟨same.exists_plays_iff script, ?_⟩
  intro answers n j answers' n' j' plays plays'
  obtain ⟨last, agree, fewer⟩ := same.plays plays plays'
  have counted : j.count = Int64.ofNat n := by
    rw [plays.count]
    exact Int64.zero_add _
  have counted' : j'.count = Int64.ofNat n' := by
    rw [plays'.count]
    exact Int64.zero_add _
  have pc : j'.pc = rank program j.pc := by
    rw [last.pc, plays.sameFrame.program]
    rfl
  refine ⟨agree, last.alike.tape, last.alike.input.unread, last.alike.output.unread,
    last.alike.state, pc, fewer, counted, counted', fun few => ?_⟩
  rw [counted, counted', count_le_iff (Nat.lt_of_le_of_lt fewer few) few]
  exact fewer

/-- A loop that copies its input, with a comment at every place: it waits, finds the output queue full,
waits again, halts and refuses to be run once more. -/
theorem comments_transparent_copy : ∃ start k k' answers n j answers' n' j',
    create [(.cells, 1), (.input, 3), (.output, 1)] = .ok start ∧
    start.prepare [97, 44, 98, 91, 46, 99, 44, 100, 93, 101] = .ok k ∧
    start.prepare [44, 91, 46, 44, 93] = .ok k' ∧
    k.Plays [.run, .write [5, 6], .run, .nextOutput, .run, .appendInput [0], .run, .run] answers n j ∧
    k'.Plays [.run, .write [5, 6], .run, .nextOutput, .run, .appendInput [0], .run, .run]
      answers' n' j' ∧
    n = 15 ∧ n' = 8 ∧ j.pc = 10 ∧ List.Forall₂ Answer.Agrees answers answers' ∧
    j.tape = j'.tape ∧ j.output.unread = j'.output.unread ∧ j.state = j'.state ∧
    j'.pc = rank [97, 44, 98, 91, 46, 99, 44, 100, 93, 101] j.pc ∧ j'.count ≤ j.count := by
  obtain ⟨start, created, k, k', prepared, prepared', ⟨answers, n, j, plays, sum, pc⟩,
      answers', n', j', plays', sum'⟩ : ∃ start,
      create [(.cells, 1), (.input, 3), (.output, 1)] = .ok start ∧ ∃ k k',
      start.prepare [97, 44, 98, 91, 46, 99, 44, 100, 93, 101] = .ok k ∧
      start.prepare [44, 91, 46, 44, 93] = .ok k' ∧
      (∃ answers n j, k.Plays
        [.run, .write [5, 6], .run, .nextOutput, .run, .appendInput [0], .run, .run] answers n j ∧
        n = 15 ∧ j.pc = 10) ∧
      ∃ answers n j, k'.Plays
        [.run, .write [5, 6], .run, .nextOutput, .run, .appendInput [0], .run, .run] answers n j ∧
        n = 8 :=
    ⟨_, rfl, _, _, rfl, rfl,
      ⟨_, _, _, .cons 20 rfl (.cons 20 rfl (.cons 20 rfl (.cons 20 rfl (.cons 20 rfl (.cons 20 rfl
        (.cons 20 rfl (.cons 20 rfl (.nil _)))))))), rfl, rfl⟩,
      ⟨_, _, _, .cons 20 rfl (.cons 20 rfl (.cons 20 rfl (.cons 20 rfl (.cons 20 rfl (.cons 20 rfl
        (.cons 20 rfl (.cons 20 rfl (.nil _)))))))), rfl⟩⟩
  obtain ⟨_, transparent⟩ := comments_transparent [97, 44, 98, 91, 46, 99, 44, 100, 93, 101]
  obtain ⟨_, agree⟩ := transparent start start k k' (.refl start) prepared prepared'
    [.run, .write [5, 6], .run, .nextOutput, .run, .appendInput [0], .run, .run]
  obtain ⟨answered, tape, _, output, state, place, _, _, _, counts⟩ :=
    agree answers n j answers' n' j' plays plays'
  have few : n < 0x8000000000000000 := by
    rw [sum]
    decide
  exact ⟨start, k, k', answers, n, j, answers', n', j', created, prepared, prepared', plays, plays',
    sum, sum', pc, answered, tape, output, state, place, counts few⟩

end Machine

end TapeMachine
