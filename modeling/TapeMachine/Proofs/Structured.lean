import TapeMachine.Proofs.Block
import TapeMachine.Proofs.Calls
import TapeMachine.Proofs.Execution
/-!
# The structured language

A tree of actions and loops means what its reader expects: a loop is a `while`. The machine knows
offsets and a jump table only, and its closing bracket tests again at the opening one. Both do the
same: an evaluation of a block is a run from its first to its last offset, by induction on the
evaluation, and a run that stops is an evaluation, by induction on its length.
-/

set_option autoImplicit false
set_option relaxedAutoImplicit false

namespace TapeMachine

/-- What a program works on. -/
structure Store where
  tape : Tape
  input : List UInt8
  output : List UInt8
  deriving DecidableEq

def Store.config (s : Store) (pc : Nat) : Config := ⟨pc, s.tape, s.input, s.output⟩

private theorem Store.config_inj {s s' : Store} {pc pc' : Nat} (same : s.config pc = s'.config pc') :
    s = s' := by
  cases s
  cases s'
  simp only [Store.config, Config.mk.injEq] at same
  obtain ⟨_, rfl, rfl, rfl⟩ := same
  rfl

def Action.effect? (s : Store) : Action → Option Store
  | .increment => some { s with tape := s.tape.increment }
  | .decrement => some { s with tape := s.tape.decrement }
  | .right => some { s with tape := s.tape.moveRight }
  | .left => some { s with tape := s.tape.moveLeft }
  | .input =>
    match s.input with
    | [] => none
    | byte :: rest => some { s with tape := s.tape.write byte, input := rest }
  | .output => some { s with output := s.output ++ [s.tape.read] }
  | .comment _ _ => some s

/-- How an evaluation ends. -/
inductive Result where
  | done (s : Store)
  | stuck (s : Store)

/-- The meaning of a block: its actions one after another, where a loop means that its body is
evaluated while the current cell is not 0. -/
inductive Block.Eval : Block → Store → Result → Prop
  | empty (s : Store) : Eval .empty s (.done s)
  | action {a : Action} {rest : Block} {s s' : Store} {r : Result} (here : a.effect? s = some s')
      (later : Eval rest s' r) : Eval (.action a rest) s r
  | starved {a : Action} {rest : Block} {s : Store} (here : a.effect? s = none) :
      Eval (.action a rest) s (.stuck s)
  | skip {body rest : Block} {s : Store} {r : Result} (zero : s.tape.read = 0)
      (later : Eval rest s r) : Eval (.loop body rest) s r
  | again {body rest : Block} {s s' : Store} {r : Result} (nonzero : s.tape.read ≠ 0)
      (once : Eval body s (.done s')) (more : Eval (.loop body rest) s' r) :
      Eval (.loop body rest) s r
  | inside {body rest : Block} {s s' : Store} (nonzero : s.tape.read ≠ 0)
      (once : Eval body s (.stuck s')) : Eval (.loop body rest) s (.stuck s')

namespace Code

/-- A block stands in the program from an offset on, and its brackets lead to each other. -/
inductive Laid (k : Code) : Block → Nat → Prop
  | empty (offset : Nat) : Laid k .empty offset
  | action {a : Action} {rest : Block} {offset : Nat} (here : k.program[offset]? = some a.toByte)
      (later : Laid k rest (offset + 1)) : Laid k (.action a rest) offset
  | loop {body rest : Block} {offset close : Nat} (length : close = offset + 1 + body.length)
      (start : k.program[offset]? = some Symbol.opening.toByte)
      (ends : k.program[close]? = some Symbol.closing.toByte)
      (forth : k.jumps.partner offset = close) (back : k.jumps.partner close = offset)
      (inside : Laid k body (offset + 1)) (later : Laid k rest (close + 1)) :
      Laid k (.loop body rest) offset

/-- A run arrives at an offset with a result, or is blocked. -/
def Reaches (k : Code) (c : Config) (finish : Nat) : Result → Prop
  | .done s => ∃ n, k.advance n c = some (s.config finish)
  | .stuck s => ∃ n pc, k.advance n c = some (s.config pc) ∧ k.Blocked (s.config pc)

variable {k : Code} {s : Store} {offset : Nat}

private theorem next?_action {a : Action} (here : k.program[offset]? = some a.toByte) :
    k.next? (s.config offset) = (a.effect? s).map fun s' => s'.config (offset + 1) := by
  have fetched : k.program[(s.config offset).pc]? = some a.toByte := here
  rw [next?, fetched]
  simp only [a.ofByte?_toByte]
  cases a with
  | input =>
      simp only [Action.instruction?, effect?, Action.effect?, Store.config]
      cases s.input <;> rfl
  | _ => rfl

private theorem next?_opening (start : k.program[offset]? = some Symbol.opening.toByte) :
    k.next? (s.config offset) = some (s.config (k.target s.tape offset)) := by
  have fetched : k.program[(s.config offset).pc]? = some Symbol.opening.toByte := start
  rw [next?, fetched]
  rfl

private theorem next?_enter (start : k.program[offset]? = some Symbol.opening.toByte)
    (nonzero : s.tape.read ≠ 0) : k.next? (s.config offset) = some (s.config (offset + 1)) := by
  rw [next?_opening start, target, if_neg nonzero]

private theorem next?_skip {close : Nat} (start : k.program[offset]? = some Symbol.opening.toByte)
    (forth : k.jumps.partner offset = close) (zero : s.tape.read = 0) :
    k.next? (s.config offset) = some (s.config (close + 1)) := by
  rw [next?_opening start, target, if_pos zero, forth]

private theorem next?_closing {close : Nat} (start : k.program[offset]? = some Symbol.opening.toByte)
    (ends : k.program[close]? = some Symbol.closing.toByte) (back : k.jumps.partner close = offset) :
    k.next? (s.config close) = k.next? (s.config offset) := by
  have fetched : k.program[(s.config close).pc]? = some Symbol.closing.toByte := ends
  rw [next?_opening start, next?, fetched, ← back]
  rfl

private theorem advance_of_same_next? {c d : Config} {n : Nat} (same : k.next? c = k.next? d)
    (moves : n ≠ 0) : k.advance n c = k.advance n d := by
  obtain ⟨n, rfl⟩ := Nat.exists_eq_succ_of_ne_zero moves
  simp only [advance, same]

private theorem Reaches.of_advance {c d : Config} {finish n : Nat} {r : Result}
    (run : k.advance n c = some d) (reaches : k.Reaches d finish r) : k.Reaches c finish r := by
  cases r with
  | done s =>
      obtain ⟨m, later⟩ := reaches
      exact ⟨n + m, advance_trans run later⟩
  | stuck s =>
      obtain ⟨m, pc, later, blocked⟩ := reaches
      exact ⟨n + m, pc, advance_trans run later, blocked⟩

private theorem Reaches.of_closing {close finish : Nat} {r : Result}
    (start : k.program[offset]? = some Symbol.opening.toByte)
    (ends : k.program[close]? = some Symbol.closing.toByte) (back : k.jumps.partner close = offset)
    (beyond : offset < finish) (reaches : k.Reaches (s.config offset) finish r) :
    k.Reaches (s.config close) finish r := by
  have same := next?_closing (s := s) start ends back
  cases r with
  | done s' =>
      obtain ⟨n, run⟩ := reaches
      have moves : n ≠ 0 := by
        rintro rfl
        simp only [advance, Option.some.injEq] at run
        have : offset = finish := congrArg Config.pc run
        omega
      exact ⟨n, (advance_of_same_next? same moves).trans run⟩
  | stuck s' =>
      obtain ⟨n, pc, run, blocked⟩ := reaches
      have moves : n ≠ 0 := by
        rintro rfl
        simp only [advance, Option.some.injEq] at run
        have wants := blocked.1
        rw [← run] at wants
        exact absurd (start.symm.trans wants) (by decide)
      exact ⟨n, pc, (advance_of_same_next? same moves).trans run, blocked⟩

theorem Laid.reaches {b : Block} {r : Result} (laid : k.Laid b offset) (eval : b.Eval s r) :
    k.Reaches (s.config offset) (offset + b.length) r := by
  induction eval generalizing offset with
  | empty s => exact ⟨0, rfl⟩
  | @action a rest s s' r here _ ih =>
      cases laid with
      | action fetched later =>
          have step : k.advance 1 (s.config offset) = some (s'.config (offset + 1)) := by
            rw [advance, next?_action fetched, here]
            rfl
          have onward := ih later
          rw [Block.length, Nat.add_comm rest.length, ← Nat.add_assoc]
          exact onward.of_advance step
  | @starved a rest s here =>
      cases laid with
      | action fetched later =>
          have stopped : k.next? (s.config offset) = none := by
            rw [next?_action fetched, here]
            rfl
          have inside : offset < k.program.length := (List.getElem?_eq_some_iff.mp fetched).1
          rcases next?_eq_none_iff.mp stopped with halted | blocked
          · exact absurd halted (Nat.not_le.mpr inside)
          · exact ⟨0, offset, rfl, blocked⟩
  | @skip body rest s r zero _ ih =>
      cases laid with
      | @loop _ _ _ close length start ends forth back inside later =>
          have step : k.advance 1 (s.config offset) = some (s.config (close + 1)) := by
            rw [advance, next?_skip start forth zero]
            rfl
          have onward := (ih later).of_advance step
          have finish : close + 1 + rest.length = offset + (Block.loop body rest).length := by
            rw [Block.length]
            omega
          rw [finish] at onward
          exact onward
  | @again body rest s s' r nonzero _ _ onceIh moreIh =>
      have whole := moreIh laid
      cases laid with
      | @loop _ _ _ close length start ends forth back inside later =>
          have step : k.advance 1 (s.config offset) = some (s.config (offset + 1)) := by
            rw [advance, next?_enter start nonzero]
            rfl
          obtain ⟨n, run⟩ := onceIh inside
          rw [← length] at run
          have beyond : offset < offset + (Block.loop body rest).length := by
            rw [Block.length]
            omega
          exact (Reaches.of_closing start ends back beyond whole).of_advance (advance_trans step run)
  | @inside body rest s s' nonzero _ ih =>
      cases laid with
      | @loop _ _ _ close length start ends forth back inside later =>
          have step : k.advance 1 (s.config offset) = some (s.config (offset + 1)) := by
            rw [advance, next?_enter start nonzero]
            rfl
          obtain ⟨n, pc, run, blocked⟩ := ih inside
          exact ⟨1 + n, pc, advance_trans step run, blocked⟩

theorem Laid.eval {b : Block} {n : Nat} {c : Config} (laid : k.Laid b offset)
    (run : k.advance n (s.config offset) = some c) (stopped : k.next? c = none) :
    (∃ s' m, b.Eval s (.done s') ∧ m ≤ n ∧
      k.advance m (s'.config (offset + b.length)) = some c) ∨
    ∃ s', b.Eval s (.stuck s') ∧ c = s'.config c.pc ∧ k.Blocked c := by
  -- On the number of instructions: a loop starts over with what its body has left of them.
  induction n using Nat.strongRecOn generalizing b offset s with
  | _ n ih =>
      cases laid with
      | empty => exact Or.inl ⟨s, n, .empty s, Nat.le_refl n, run⟩
      | @action a rest _ fetched later =>
          have step := next?_action (s := s) fetched
          cases here : a.effect? s with
          | none =>
              rw [here, Option.map_none] at step
              have here₀ : k.advance 0 (s.config offset) = some (s.config offset) := rfl
              obtain ⟨rfl, rfl⟩ := stopped_unique here₀ step run stopped
              have inside : offset < k.program.length := (List.getElem?_eq_some_iff.mp fetched).1
              rcases next?_eq_none_iff.mp step with halted | blocked
              · exact absurd halted (Nat.not_le.mpr inside)
              · exact Or.inr ⟨s, .starved here, rfl, blocked⟩
          | some s₁ =>
              rw [here, Option.map_some] at step
              obtain ⟨n, rfl, onward⟩ := exists_advance_of_next? step run stopped
              rcases ih n (Nat.lt_succ_self n) later onward with
                ⟨s', m, eval, short, left⟩ | ⟨s', eval, view, blocked⟩
              · rw [Nat.add_assoc, Nat.add_comm 1] at left
                exact Or.inl ⟨s', m, .action here eval, by omega, left⟩
              · exact Or.inr ⟨s', .action here eval, view, blocked⟩
      | @loop body rest _ close length start ends forth back inside later =>
          by_cases zero : s.tape.read = 0
          · have step := next?_skip start forth zero
            obtain ⟨n, rfl, onward⟩ := exists_advance_of_next? step run stopped
            have finish : close + 1 + rest.length = offset + (Block.loop body rest).length := by
              rw [Block.length]
              omega
            rcases ih n (Nat.lt_succ_self n) later onward with
              ⟨s', m, eval, short, left⟩ | ⟨s', eval, view, blocked⟩
            · rw [finish] at left
              exact Or.inl ⟨s', m, .skip zero eval, by omega, left⟩
            · exact Or.inr ⟨s', .skip zero eval, view, blocked⟩
          · have step := next?_enter start zero
            obtain ⟨n, rfl, onward⟩ := exists_advance_of_next? step run stopped
            rcases ih n (Nat.lt_succ_self n) inside onward with
              ⟨s₁, m, once, short, left⟩ | ⟨s', once, view, blocked⟩
            · rw [← length] at left
              have same := next?_closing (s := s₁) start ends back
              obtain ⟨m', rfl, _⟩ :=
                exists_advance_of_next? (same.trans (next?_opening start)) left stopped
              rw [advance_of_same_next? same (Nat.succ_ne_zero m')] at left
              have whole : k.Laid (.loop body rest) offset :=
                .loop length start ends forth back inside later
              rcases ih (m' + 1) (by omega) whole left with
                ⟨s', m, more, short', left'⟩ | ⟨s', more, view, blocked⟩
              · exact Or.inl ⟨s', m, .again zero once more, by omega, left'⟩
              · exact Or.inr ⟨s', .again zero once more, view, blocked⟩
            · exact Or.inr ⟨s', .inside zero once, view, blocked⟩

private theorem cons_at {program rest : List UInt8} {byte : UInt8}
    (here : byte :: rest <+: program.drop offset) :
    program[offset]? = some byte ∧ rest <+: program.drop (offset + 1) := by
  obtain ⟨after, whole⟩ := here
  have head : (program.drop offset)[0]? = some byte := by
    rw [← whole]
    rfl
  have tail : (program.drop offset).drop 1 = rest ++ after := by
    rw [← whole]
    rfl
  rw [List.getElem?_drop] at head
  rw [List.drop_drop] at tail
  exact ⟨head, after, tail.symm⟩

private theorem append_at {program first second : List UInt8}
    (here : first ++ second <+: program.drop offset) :
    first <+: program.drop offset ∧ second <+: program.drop (offset + first.length) := by
  obtain ⟨after, whole⟩ := here
  refine ⟨⟨second ++ after, by rw [← whole, List.append_assoc]⟩, after, ?_⟩
  rw [← List.drop_drop, ← whole, List.append_assoc, List.drop_left]

private theorem laid_of_pairs (b : Block) (text : b.text <+: k.program.drop offset)
    (paired : ∀ pair ∈ b.pairs offset,
      k.jumps.partner pair.1 = pair.2 ∧ k.jumps.partner pair.2 = pair.1) : k.Laid b offset := by
  induction b generalizing offset with
  | empty => exact .empty _
  | action a rest ih =>
      obtain ⟨here, later⟩ := cons_at text
      exact .action here (ih later paired)
  | loop body rest bodyIh restIh =>
      obtain ⟨start, inner⟩ := cons_at text
      obtain ⟨inside, outer⟩ := append_at inner
      obtain ⟨ends, later⟩ := cons_at outer
      rw [Block.length_text] at ends later
      simp only [Block.pairs, List.mem_append, List.mem_cons] at paired
      have close : offset + body.length + 1 = offset + 1 + body.length := by omega
      have after : offset + body.length + 2 = offset + 1 + body.length + 1 := by omega
      rw [close, after] at paired
      have pair := paired _ (Or.inr (Or.inl rfl))
      exact .loop rfl start ends pair.1 pair.2
        (bodyIh inside fun pair member => paired pair (Or.inr (Or.inr member)))
        (restIh later fun pair member => paired pair (Or.inl member))

private theorem laid_of_text {b : Block} (text : b.text = k.program) : k.Laid b 0 := by
  refine laid_of_pairs b ⟨[], ?_⟩ fun pair member => ?_
  · rw [List.append_nil, text, List.drop_zero]
  · obtain ⟨_, _, jumps⟩ := link_eq_ok_iff.mp k.linked
    rw [← Block.pairs_matching_text, text] at member
    rw [jumps]
    exact Brackets.partner_of_mem member

theorem eval_of_stopped {b : Block} {n : Nat} {c : Config} (text : b.text = k.program)
    (run : k.advance n (s.config 0) = some c) (stopped : k.next? c = none) :
    (∃ s', b.Eval s (.done s') ∧ c = s'.config c.pc ∧ k.Halted c) ∨
      ∃ s', b.Eval s (.stuck s') ∧ c = s'.config c.pc ∧ k.Blocked c := by
  rcases (laid_of_text text).eval run stopped with ⟨s', m, eval, _, left⟩ | stuck
  · have halted : k.Halted (s'.config (0 + b.length)) := by
      rw [Nat.zero_add, ← b.length_text, text]
      exact Nat.le_refl _
    have here : k.advance 0 (s'.config (0 + b.length)) = some (s'.config (0 + b.length)) := rfl
    obtain ⟨_, rfl⟩ := stopped_unique here (next?_eq_none_iff.mpr (Or.inl halted)) left stopped
    exact Or.inl ⟨s', eval, rfl, halted⟩
  · exact Or.inr stuck

/-- The evaluations of a program are the runs of the ideal machine to its end. -/
theorem eval_done_iff {b : Block} (text : b.text = k.program) {s' : Store} :
    b.Eval s (.done s') ↔
      ∃ n pc, k.advance n (s.config 0) = some (s'.config pc) ∧ k.Halted (s'.config pc) := by
  constructor
  · intro eval
    obtain ⟨n, run⟩ := (laid_of_text text).reaches eval
    refine ⟨n, _, run, ?_⟩
    rw [Nat.zero_add, ← b.length_text, text]
    exact Nat.le_refl _
  · rintro ⟨n, pc, run, halted⟩
    rcases eval_of_stopped text run (next?_eq_none_iff.mpr (Or.inl halted)) with
      ⟨s₁, eval, view, _⟩ | ⟨_, _, _, blocked⟩
    · rw [Store.config_inj view]
      exact eval
    · exact absurd halted (not_halted_of_blocked blocked)

theorem eval_stuck_iff {b : Block} (text : b.text = k.program) {s' : Store} :
    b.Eval s (.stuck s') ↔
      ∃ n pc, k.advance n (s.config 0) = some (s'.config pc) ∧ k.Blocked (s'.config pc) := by
  constructor
  · exact (laid_of_text text).reaches
  · rintro ⟨n, pc, run, blocked⟩
    rcases eval_of_stopped text run (next?_eq_none_iff.mpr (Or.inr blocked)) with
      ⟨_, _, _, halted⟩ | ⟨s₁, eval, view, _⟩
    · exact absurd halted (not_halted_of_blocked blocked)
    · rw [Store.config_inj view]
      exact eval

end Code

private theorem run_store_iff {k : Code} {m : Machine} {state : RunState} {s : Store}
    (holds : m.Holds k) (prepared : m.prepared = true) (live : m.state ≠ .halted)
    (fits : s.output.length ≤ m.output.capacity) :
    (∃ fuel m', m.run fuel = some ⟨m', none⟩ ∧ m'.state = state ∧ m'.tape = s.tape ∧
        m'.input.unread = s.input ∧ m'.output.unread = s.output) ↔
      ∃ n pc, k.advance n m.config = some (s.config pc) ∧
        (state = .halted ∧ k.Halted (s.config pc) ∨ state = .waiting ∧ k.Blocked (s.config pc)) := by
  constructor
  · rintro ⟨fuel, m', ran, now, tape, input, output⟩
    have view : m'.config = s.config m'.pc := by
      rw [Machine.config, Store.config, tape, input, output]
    obtain ⟨_, n, run, ends⟩ := (Machine.run_iff holds prepared live).mp ⟨fuel, m', ran, now, view⟩
    exact ⟨n, m'.pc, run, ends⟩
  · rintro ⟨n, pc, run, ends⟩
    obtain ⟨fuel, m', ran, now, view⟩ := (Machine.run_iff holds prepared live).mpr ⟨fits, n, run, ends⟩
    simp only [Machine.config, Store.config, Config.mk.injEq] at view
    exact ⟨fuel, m', ran, now, view.2⟩

theorem Machine.exists_run_of_eval {m : Machine} {b : Block} {input : List UInt8} {s : Store}
    (room : input.length ≤ m.input.capacity) (fits : s.output.length ≤ m.output.capacity)
    (eval : b.Eval ⟨m.tape.reset, input, []⟩ (.done s)) :
    ∃ loaded fed fuel m', m.prepare b.text = .ok loaded ∧ loaded.appendInput input = .ok fed ∧
      fed.run fuel = some ⟨m', none⟩ ∧ m'.state = .halted ∧ m'.tape = s.tape ∧
      m'.input.unread = s.input ∧ m'.output.unread = s.output := by
  obtain ⟨jumps, linked⟩ := b.exists_link_text
  have prepared : m.prepare b.text = .ok (m.loaded b.text jumps) :=
    prepare_eq_ok_iff.mpr ⟨jumps, linked, rfl⟩
  have empty : m.input.reset.length = 0 := m.input.reset.unread_eq_nil_iff.mp m.input.unread_reset
  have accepts : input.length ≤
      (m.loaded b.text jumps).input.capacity - (m.loaded b.text jumps).input.length := by
    simpa [loaded, empty] using room
  obtain ⟨queue, fed, unread, _⟩ := appendInput_of_room accepts
  have bytes : queue.unread = input := by simpa [loaded] using unread
  let k : Code := ⟨b.text, jumps, linked⟩
  let m₁ : Machine :=
    { m.loaded b.text jumps with input := queue, state := resumed .running queue.unread }
  have holds : m₁.Holds k := ⟨rfl, rfl⟩
  have view : m₁.config = Store.config ⟨m.tape.reset, input, []⟩ 0 := by
    simp [m₁, Machine.config, Store.config, loaded, install, bytes]
  have run := (Code.eval_done_iff (k := k) rfl).mp eval
  rw [← view] at run
  obtain ⟨n, pc, run, halted⟩ := run
  have running : RunState.running ≠ .halted := RunState.noConfusion
  have live : m₁.state ≠ .halted := resumed_ne_halted running queue.unread
  obtain ⟨fuel, m', ran, ends⟩ :=
    (run_store_iff holds rfl live fits).mpr ⟨n, pc, run, Or.inl ⟨rfl, halted⟩⟩
  exact ⟨_, m₁, fuel, m', prepared, fed, ran, ends⟩

/-- Running a freshly loaded program is evaluating its tree. The machine halts exactly with what an
evaluation ends with, and waits exactly where an evaluation gets stuck without input, if its output
queue can hold the output. -/
theorem Machine.run_evaluates {m loaded : Machine} {program : List UInt8}
    (prepared : m.prepare program = .ok loaded) (queue : Buffer) :
    ∃ b : Block, Block.parse? program = some b ∧ b.text = program ∧
      ∀ (tape : Tape) (input output : List UInt8), output.length ≤ loaded.output.capacity →
        ((∃ fuel m', Machine.run fuel { loaded with input := queue } = some ⟨m', none⟩ ∧
            m'.state = .halted ∧ m'.tape = tape ∧ m'.input.unread = input ∧
            m'.output.unread = output) ↔
          b.Eval ⟨Tape.blank m.tape.size (Nat.zero_lt_of_lt m.tape.pointer_lt), queue.unread, []⟩
            (.done ⟨tape, input, output⟩)) ∧
        ((∃ fuel m', Machine.run fuel { loaded with input := queue } = some ⟨m', none⟩ ∧
            m'.state = .waiting ∧ m'.tape = tape ∧ m'.input.unread = input ∧
            m'.output.unread = output) ↔
          b.Eval ⟨Tape.blank m.tape.size (Nat.zero_lt_of_lt m.tape.pointer_lt), queue.unread, []⟩
            (.stuck ⟨tape, input, output⟩)) := by
  obtain ⟨jumps, linked, rfl⟩ := prepare_eq_ok_iff.mp prepared
  obtain ⟨b, parsed⟩ := Block.exists_parse?_of_link linked
  have text := Block.parse?_eq_some_iff.mp parsed
  refine ⟨b, parsed, text, fun tape input output fits => ?_⟩
  let k : Code := ⟨program, jumps, linked⟩
  let start : Store :=
    ⟨Tape.blank m.tape.size (Nat.zero_lt_of_lt m.tape.pointer_lt), queue.unread, []⟩
  let m₁ : Machine := { m.install program jumps with
    tape := m.tape.reset
    input := queue
    output := m.output.reset }
  have holds : m₁.Holds k := ⟨rfl, rfl⟩
  have view : m₁.config = start.config 0 := by
    simp [m₁, start, Machine.config, Store.config, install, Tape.reset, Tape.size]
  constructor
  · rw [Code.eval_done_iff (k := k) text, ← view]
    refine (run_store_iff (s := ⟨tape, input, output⟩) holds rfl RunState.noConfusion fits).trans ?_
    simp
  · rw [Code.eval_stuck_iff (k := k) text, ← view]
    refine (run_store_iff (s := ⟨tape, input, output⟩) holds rfl RunState.noConfusion fits).trans ?_
    simp

/-- An inner loop clears the cell before the outer one asks for the next byte, of which there is none.
-/
theorem Machine.run_evaluates_nested : ∃ (loaded : Machine) (b : Block),
    (Machine.ofSizes ⟨2, 1, 1, by decide, by decide, by decide⟩).prepare
      [43, 91, 91, 45, 93, 62, 44, 46, 93] = .ok loaded ∧
    Block.parse? [43, 91, 91, 45, 93, 62, 44, 46, 93] = some b ∧
    b.Eval ⟨Tape.blank 2 (by decide), [5], []⟩ (.stuck ⟨Tape.blank 2 (by decide), [], [5]⟩) := by
  have loaded : (Machine.ofSizes ⟨2, 1, 1, by decide, by decide, by decide⟩).prepare
      [43, 91, 91, 45, 93, 62, 44, 46, 93] = .ok _ := rfl
  obtain ⟨b, parsed, _, evaluates⟩ := Machine.run_evaluates loaded ⟨#[5], 0, 1, by decide, by decide⟩
  refine ⟨_, b, loaded, parsed, ?_⟩
  have waits {m : Machine} (ran : (m.run 30).map (fun out =>
      (out.error, out.machine.state, out.machine.tape, out.machine.input.unread,
        out.machine.output.unread)) = some (none, .waiting, Tape.blank 2 (by decide), [], [5])) :
      ∃ fuel m', m.run fuel = some ⟨m', none⟩ ∧ m'.state = .waiting ∧
        m'.tape = Tape.blank 2 (by decide) ∧ m'.input.unread = [] ∧ m'.output.unread = [5] := by
    obtain ⟨⟨m', error⟩, ran, view⟩ := Option.map_eq_some_iff.mp ran
    simp only [Prod.mk.injEq] at view
    obtain ⟨rfl, view⟩ := view
    exact ⟨30, m', ran, view⟩
  exact (evaluates _ _ _ (by decide)).2.mp (waits (by decide +kernel))

end TapeMachine
