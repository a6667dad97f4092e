import TapeMachine.Proofs.Calls
/-!
# Schedules

A history of calls is remembered by the input that was accepted, the output that was taken and the
number of instructions that were executed. Whatever the calls and their answers were, the machine is
then where the ideal machine is after that many instructions on that input. So two histories whose
inputs agree differ only in how far they have come.
-/

set_option autoImplicit false
set_option relaxedAutoImplicit false

namespace TapeMachine

/-- A machine with what has passed in and out of it. -/
structure History where
  machine : Machine
  /-- The input that has been accepted. -/
  accepted : List UInt8
  /-- The output that has been taken. -/
  taken : List UInt8
  executed : Nat

namespace History

def start (m : Machine) : History := ⟨m, [], [], 0⟩

/-- A history with one more call; `none` if the call does not return. -/
def extend (h : History) (c : Call) : Option History :=
  match c.perform h.machine with
  | none => none
  | some (m, answer) =>
    some ⟨m, h.accepted ++ c.accepts answer, h.taken ++ answer.taken, h.executed + c.executes h.machine⟩

def follow : History → List Call → Option History
  | h, [] => some h
  | h, c :: rest =>
    match h.extend c with
    | none => none
    | some h => h.follow rest

def produced (h : History) : List UInt8 := h.taken ++ h.machine.output.unread

/-- The number of accepted bytes that are no longer unread. -/
def consumed (h : History) : Nat := h.accepted.length - h.machine.input.length

def config (h : History) : Config := h.machine.config.within h.taken []

/-- A history is where the ideal machine is after as many instructions on the same input. -/
structure Tracks (k : Code) (tape : Tape) (h : History) : Prop where
  holds : h.machine.Holds k
  run : k.advance h.executed ⟨0, tape, h.accepted, []⟩ = some h.config
  count : h.machine.count = Int64.ofNat h.executed

end History

namespace History.Tracks

variable {k : Code} {tape : Tape} {h h' : History}

private theorem stay (tracks : h.Tracks k tape) :
    Tracks k tape ⟨h.machine, h.accepted ++ [], h.taken ++ [], h.executed + 0⟩ := by
  rw [List.append_nil, List.append_nil]
  exact tracks

private theorem accept (tracks : h.Tracks k tape) (bytes : List UInt8) {queue : Buffer}
    (state : RunState) (unread : queue.unread = h.machine.input.unread ++ bytes) :
    Tracks k tape ⟨{ h.machine with input := queue, state := state }, h.accepted ++ bytes,
      h.taken ++ [], h.executed + 0⟩ := by
  refine ⟨⟨tracks.holds.program, tracks.holds.jumps⟩, ?_, tracks.count⟩
  have later := Code.advance_within [] bytes tracks.run
  simpa [History.config, Config.within, Machine.config, unread] using later

private theorem take (tracks : h.Tracks k tape) (bytes : List UInt8) {queue : Buffer}
    (unread : bytes ++ queue.unread = h.machine.output.unread) :
    Tracks k tape ⟨{ h.machine with output := queue }, h.accepted ++ [], h.taken ++ bytes,
      h.executed + 0⟩ := by
  refine ⟨⟨tracks.holds.program, tracks.holds.jumps⟩, ?_, tracks.count⟩
  have same := tracks.run
  simpa [History.config, Config.within, Machine.config, ← unread] using same

private theorem runWithin (tracks : h.Tracks k tape) {bound : Bound} {fuel : Nat} {out : Outcome}
    (ran : h.machine.runWithin bound fuel = some out) :
    Tracks k tape ⟨out.machine, h.accepted ++ [], h.taken ++ [],
      h.executed + h.machine.executed bound fuel⟩ := by
  obtain ⟨m', runs, view⟩ := Machine.runWithin_eq_some ran
  have same := tracks.holds.of_sameFrame runs.sameFrame
  have onward := Code.advance_within h.taken [] (runs.advance tracks.holds)
  refine ⟨?_, ?_, ?_⟩
  · rw [view]
    exact ⟨same.program, same.jumps⟩
  · rw [List.append_nil, List.append_nil, Code.advance_trans tracks.run onward, History.config, view]
    rfl
  · rw [view]
    simp only [runs.count, tracks.count, Int64.ofNat_add]

theorem extend (tracks : h.Tracks k tape) {c : Call} (done : h.extend c = some h') :
    h'.Tracks k tape := by
  unfold History.extend at done
  cases performed : c.perform h.machine with
  | none => simp [performed] at done
  | some r =>
      obtain ⟨m, answer⟩ := r
      simp only [performed, Option.some.injEq] at done
      subst done
      have does := c.does performed
      generalize c.accepts answer = accepted, answer.taken = taken, c.executes h.machine = executed
        at does ⊢
      cases does with
      | nothing => exact tracks.stay
      | accepts unread _ => exact tracks.accept _ _ unread
      | gives unread _ => exact tracks.take _ unread
      | runs ran => exact tracks.runWithin ran

theorem follow (tracks : h.Tracks k tape) {calls : List Call} (done : h.follow calls = some h') :
    h'.Tracks k tape := by
  induction calls generalizing h with
  | nil =>
      cases done
      exact tracks
  | cons c rest ih =>
      rw [History.follow] at done
      cases first : h.extend c with
      | none => simp [first] at done
      | some h₁ =>
          rw [first] at done
          exact ih (tracks.extend first) done

private theorem run_within (tracks : h.Tracks k tape) {input more : List UInt8}
    (longer : h.accepted ++ more = input) :
    k.advance h.executed ⟨0, tape, input, []⟩ = some (h.config.within [] more) := by
  have later := Code.advance_within [] more tracks.run
  simpa [Config.within, longer] using later

private theorem length_le (tracks : h.Tracks k tape) :
    h.machine.input.length ≤ h.accepted.length := by
  have suffix := (Code.advance_streams tracks.run).1
  have short := suffix.length_le
  simpa [History.config, Config.within, Machine.config] using short

end History.Tracks

theorem Tape.reset_of_size {t t' : Tape} (same : t.size = t'.size) : t.reset = t'.reset := by
  simp only [Tape.size] at same
  simp [Tape.reset, Tape.blank, same]

private theorem History.tracks_start {m loaded : Machine} {program : List UInt8} {jumps : JumpTable}
    (linked : link program = .ok jumps) (prepared : m.prepare program = .ok loaded) :
    (History.start loaded).Tracks ⟨program, jumps, linked⟩ m.tape.reset := by
  obtain ⟨jumps', linked', rfl⟩ := Machine.prepare_eq_ok_iff.mp prepared
  rw [linked, Except.ok.injEq] at linked'
  subst linked'
  refine ⟨⟨rfl, rfl⟩, ?_, rfl⟩
  simp [History.start, History.config, Code.advance, Config.within, Machine.config,
    Machine.loaded, Machine.install]

theorem count_le_iff {m n : Nat} (few₁ : m < 0x8000000000000000)
    (few₂ : n < 0x8000000000000000) : Int64.ofNat m ≤ Int64.ofNat n ↔ m ≤ n := by
  rw [Int64.le_iff_toInt_le, Int64.toInt_ofNat_of_lt few₁, Int64.toInt_ofNat_of_lt few₂]
  exact Int.ofNat_le

/-- Two machines with the same number of cells run the same program under any two schedules of calls.
Where the inputs they have accepted agree as far as both go, the one that has executed no more
instructions has produced a first part of the other's output and has consumed no more of the input;
with as many instructions, program counter, tape, output and consumed input are the same. -/
theorem History.schedules_agree {m₁ m₂ loaded₁ loaded₂ : Machine} {program : List UInt8}
    {calls₁ calls₂ : List Call} {h₁ h₂ : History} (cells : m₁.tape.size = m₂.tape.size)
    (prepared₁ : m₁.prepare program = .ok loaded₁) (prepared₂ : m₂.prepare program = .ok loaded₂)
    (followed₁ : (History.start loaded₁).follow calls₁ = some h₁)
    (followed₂ : (History.start loaded₂).follow calls₂ = some h₂)
    (few₁ : h₁.executed < 0x8000000000000000) (few₂ : h₂.executed < 0x8000000000000000)
    (comparable : h₁.accepted <+: h₂.accepted ∨ h₂.accepted <+: h₁.accepted)
    (earlier : h₁.machine.count ≤ h₂.machine.count) :
    h₁.produced <+: h₂.produced ∧ h₁.consumed ≤ h₂.consumed ∧
      (h₁.machine.count = h₂.machine.count →
        h₁.machine.pc = h₂.machine.pc ∧ h₁.machine.tape = h₂.machine.tape ∧
          h₁.produced = h₂.produced ∧ h₁.consumed = h₂.consumed) := by
  obtain ⟨jumps, linked, _⟩ := Machine.prepare_eq_ok_iff.mp prepared₁
  have tracks₁ := (tracks_start linked prepared₁).follow followed₁
  have tracks₂ := (tracks_start linked prepared₂).follow followed₂
  rw [← Tape.reset_of_size cells] at tracks₂
  rw [tracks₁.count, tracks₂.count] at earlier ⊢
  rw [count_le_iff few₁ few₂] at earlier
  -- Both histories on one input, which is the longer of the two.
  obtain ⟨input, more₁, more₂, longer₁, longer₂⟩ :
      ∃ input more₁ more₂, h₁.accepted ++ more₁ = input ∧ h₂.accepted ++ more₂ = input := by
    rcases comparable with ⟨more, longer⟩ | ⟨more, longer⟩
    · exact ⟨h₂.accepted, more, [], longer, List.append_nil _⟩
    · exact ⟨h₁.accepted, [], more, List.append_nil _, longer⟩
  have run₁ := tracks₁.run_within longer₁
  have run₂ := tracks₂.run_within longer₂
  obtain ⟨further, onward⟩ := Nat.exists_eq_add_of_le earlier
  rw [onward, Code.advance_add, run₁, Option.bind_some] at run₂
  have lengths : h₁.accepted.length + more₁.length = h₂.accepted.length + more₂.length := by
    rw [← List.length_append, ← List.length_append, longer₁, longer₂]
  have unread₁ := tracks₁.length_le
  have unread₂ := tracks₂.length_le
  have streams := Code.advance_streams run₂
  refine ⟨streams.2, ?_, fun same => ?_⟩
  · have shorter := streams.1.length_le
    simp only [config, Config.within, Machine.config, List.length_append, List.length_nil,
      Buffer.length_unread] at shorter
    simp only [consumed]
    omega
  · have as_many : further = 0 := by
      have back := (count_le_iff few₂ few₁).mp (Int64.le_of_eq same.symm)
      omega
    subst as_many
    simp only [Code.advance, Option.some.injEq] at run₂
    have pc : h₁.machine.pc = h₂.machine.pc := congrArg Config.pc run₂
    have tape : h₁.machine.tape = h₂.machine.tape := congrArg Config.tape run₂
    have output : h₁.produced = h₂.produced := congrArg Config.output run₂
    have left := congrArg (fun c : Config => c.input.length) run₂
    simp only [config, Config.within, Machine.config, List.length_append, List.length_nil,
      Buffer.length_unread] at left
    refine ⟨pc, tape, output, ?_⟩
    simp only [consumed]
    omega

/-- A machine that is fed byte by byte through the smallest queues, and one that is given its input at
once and stepped before, after three instructions each. -/
theorem History.schedules_agree_echo : ∃ (loaded₁ loaded₂ : Machine) (h₁ h₂ : History),
    (Machine.ofSizes ⟨2, 1, 1, by decide, by decide, by decide⟩).prepare [44, 46, 44, 46] = .ok loaded₁ ∧
    (Machine.ofSizes ⟨2, 3, 2, by decide, by decide, by decide⟩).prepare [44, 46, 44, 46] = .ok loaded₂ ∧
    (History.start loaded₁).follow
      [.run 9, .write [97, 98], .run 9, .run 9, .write [98], .nextOutput, .runUpTo 9 2] = some h₁ ∧
    (History.start loaded₂).follow [.step, .appendInput [97, 98, 99], .step, .step, .step] = some h₂ ∧
    h₁.machine.count = h₂.machine.count ∧ h₁.accepted = [97, 98] ∧ h₂.accepted = [97, 98, 99] ∧
    h₁.machine.tape = h₂.machine.tape ∧ h₁.produced = h₂.produced ∧ h₁.consumed = h₂.consumed := by
  obtain ⟨loaded₁, prepared₁, ran₁⟩ : ∃ loaded,
      (Machine.ofSizes ⟨2, 1, 1, by decide, by decide, by decide⟩).prepare [44, 46, 44, 46] =
        .ok loaded ∧
      ((History.start loaded).follow
        [.run 9, .write [97, 98], .run 9, .run 9, .write [98], .nextOutput, .runUpTo 9 2]).map
          (fun h => (h.executed, h.accepted, h.machine.count)) = some (3, [97, 98], 3) :=
    ⟨_, rfl, by decide +kernel⟩
  obtain ⟨loaded₂, prepared₂, ran₂⟩ : ∃ loaded,
      (Machine.ofSizes ⟨2, 3, 2, by decide, by decide, by decide⟩).prepare [44, 46, 44, 46] =
        .ok loaded ∧
      ((History.start loaded).follow [.step, .appendInput [97, 98, 99], .step, .step, .step]).map
          (fun h => (h.executed, h.accepted, h.machine.count)) = some (3, [97, 98, 99], 3) :=
    ⟨_, rfl, by decide +kernel⟩
  obtain ⟨h₁, followed₁, view₁⟩ := Option.map_eq_some_iff.mp ran₁
  obtain ⟨h₂, followed₂, view₂⟩ := Option.map_eq_some_iff.mp ran₂
  simp only [Prod.mk.injEq] at view₁ view₂
  obtain ⟨executed₁, accepted₁, count₁⟩ := view₁
  obtain ⟨executed₂, accepted₂, count₂⟩ := view₂
  have same : h₁.machine.count = h₂.machine.count := count₁.trans count₂.symm
  obtain ⟨_, _, equal⟩ := schedules_agree (by decide) prepared₁ prepared₂ followed₁ followed₂
    (by rw [executed₁]; decide) (by rw [executed₂]; decide)
    (Or.inl (by rw [accepted₁, accepted₂]; decide)) (Int64.le_of_eq same)
  exact ⟨loaded₁, loaded₂, h₁, h₂, prepared₁, prepared₂, followed₁, followed₂, same, accepted₁,
    accepted₂, (equal same).2⟩

end TapeMachine
