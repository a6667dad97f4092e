import TapeMachine.Proofs.Alike
import TapeMachine.Proofs.Codec
import TapeMachine.Proofs.Consistency
/-!
# Snapshots

An image of a machine, written, read and restored into a new machine of the sizes that the image asks
for, gives a machine that cannot be told from the first one. Only the storage of the queues differs.
-/

set_option autoImplicit false
set_option relaxedAutoImplicit false

namespace TapeMachine

def Request.Fits : Request → Prop
  | .prepare program => program.length < 0x8000000000000000
  | .restore img => img.Fits
  | _ => True

/-- What can be seen of a machine. -/
structure Observation where
  pc : Nat
  state : RunState
  count : Int64
  tape : Tape
  input : List UInt8
  output : List UInt8

namespace Machine

def observation (m : Machine) : Observation :=
  ⟨m.pc, m.state, m.count, m.tape, m.input.unread, m.output.unread⟩

/-- The sizes of the machine and of its program fit into a signed word of 64 bits. -/
structure Fits (m : Machine) : Prop where
  program : m.program.size < 0x8000000000000000
  cells : m.tape.size < 0x8000000000000000
  input : m.input.capacity < 0x8000000000000000
  output : m.output.capacity < 0x8000000000000000

variable {m m' : Machine}

theorem Alike.observation (alike : m.Alike m') : m.observation = m'.observation := by
  simp only [Machine.observation, alike.pc, alike.state, alike.count, alike.tape, alike.input.unread,
    alike.output.unread]

theorem Alike.respond_observation (alike : m.Alike m') (requests : List Request) :
    (m.respond requests).map (fun reply => (reply.1.observation, reply.2)) =
      (m'.respond requests).map fun reply => (reply.1.observation, reply.2) := by
  have same := alike.respond requests
  generalize m.respond requests = reply at same ⊢
  generalize m'.respond requests = reply' at same ⊢
  cases same with
  | none => rfl
  | some same =>
      obtain ⟨after, answers⟩ := same
      simp only [Option.map_some, after.observation, answers]

private theorem Fits.of_sameSizes (fits : m.Fits) (same : m.SameSizes m')
    (program : m'.program.size < 0x8000000000000000) : m'.Fits := by
  refine ⟨program, ?_, ?_, ?_⟩
  · rw [same.cells]
    exact fits.cells
  · rw [same.input]
    exact fits.input
  · rw [same.output]
    exact fits.output

theorem Fits.of_sameFrame (fits : m.Fits) (same : SameFrame m m') : m'.Fits := by
  refine fits.of_sameSizes same.sameSizes ?_
  rw [same.program]
  exact fits.program

private theorem Fits.request {r : Request} {answer : Answer} (fits : m.Fits) (small : r.Fits)
    (done : r.perform m = some (m', answer)) : m'.Fits := by
  have same := (r.does done).sameSizes
  refine fits.of_sameSizes same ?_
  cases r.does done with
  | nothing => exact fits.program
  | called does =>
      rw [does.sameFrame.program]
      exact fits.program
  | @loaded program jumps linked =>
      have short : program.length < 0x8000000000000000 := small
      exact short
  | @restored img tape state jumps passes =>
      have short : img.Fits := small
      exact short.program
  | touched => exact fits.program

theorem Fits.leads (fits : m.Fits) (leads : m.Leads Request.Fits m') :
    m'.Fits := by
  induction leads with
  | refl => exact fits
  | request _ allowed done ih => exact ih.request allowed done

private structure SmallSizes (s : Sizes) : Prop where
  cells : s.cells < 0x8000000000000000
  input : s.input < 0x8000000000000000
  output : s.output < 0x8000000000000000

private theorem set_small {s s' : Sizes} {part : Part} {size : Int} (small : SmallSizes s)
    (fits : size < 0x8000000000000000) (done : s.set part size = .ok s') : SmallSizes s' := by
  unfold Sizes.set at done
  split at done
  · cases part with
    | cells =>
        cases done
        exact ⟨by simp only; omega, small.input, small.output⟩
    | input =>
        cases done
        exact ⟨small.cells, by simp only; omega, small.output⟩
    | output =>
        cases done
        exact ⟨small.cells, small.input, by simp only; omega⟩
  · cases done

private theorem setAll_small {s s' : Sizes} {sizes : List (Part × Int)} (small : SmallSizes s)
    (fit : ∀ size ∈ sizes, size.2 < 0x8000000000000000) (done : s.setAll sizes = .ok s') :
    SmallSizes s' := by
  induction sizes generalizing s with
  | nil =>
      cases done
      exact small
  | cons first rest ih =>
      simp only [Sizes.setAll] at done
      split at done
      case h_1 s₁ set =>
        have next := set_small small (fit first List.mem_cons_self) set
        exact ih next (fun size member => fit size (List.mem_cons_of_mem first member)) done
      case h_2 => cases done

theorem fits_create {sizes : List (Part × Int)} (created : create sizes = .ok m)
    (small : ∀ size ∈ sizes, size.2 < 0x8000000000000000) : m.Fits := by
  obtain ⟨s, set, rfl⟩ := create_eq_ok_iff.mp created
  have standard : SmallSizes Sizes.standard := ⟨by decide, by decide, by decide⟩
  obtain ⟨cells, input, output⟩ := setAll_small standard small set
  have noProgram : 0 < 0x8000000000000000 := by decide
  exact ⟨noProgram, by simpa using cells, by simpa using input, by simpa using output⟩

private theorem create_three {cells input output : Nat} (cells_pos : 0 < cells)
    (input_pos : 0 < input) (output_pos : 0 < output) :
    create [(.cells, cells), (.input, input), (.output, output)] =
      .ok (ofSizes ⟨cells, input, output, cells_pos, input_pos, output_pos⟩) := by
  simp [create, Sizes.setAll, Sizes.set, cells_pos, input_pos, output_pos]

def snapshot (m : Machine) : Image where
  program := Image.field m.program.toList
  pc := Int64.ofNat m.pc
  state := Int64.ofNat m.state.toNat
  pointer := Int64.ofNat m.tape.pointer
  cells := Image.field m.tape.cells.toList
  input := Image.field m.input.unread
  output := Image.field m.output.unread
  inputSize := Int64.ofNat m.input.capacity
  outputSize := Int64.ofNat m.output.capacity
  count := m.count

theorem image?_of_prepared (prepared : m.prepared = true) : m.image? = some m.snapshot := by
  rw [image?, if_pos prepared]
  rfl

end Machine

@[simp]
theorem Image.getD_field (bytes : List UInt8) : (Image.field bytes).getD [] = bytes := by
  cases bytes <;> rfl

namespace Machine

variable {m : Machine}

private theorem normal_snapshot (m : Machine) : m.snapshot.normal = m.snapshot := by
  simp [Image.normal, snapshot]

private theorem Fits.snapshot (fits : m.Fits) : m.snapshot.Fits := by
  have cells := fits.cells
  have input := Nat.lt_of_le_of_lt m.input.length_le_capacity fits.input
  have output := Nat.lt_of_le_of_lt m.output.length_le_capacity fits.output
  refine ⟨?_, ?_, ?_, ?_⟩
  · simpa [Machine.snapshot] using fits.program
  · simpa [Machine.snapshot, Tape.size] using cells
  · simpa [Machine.snapshot] using input
  · simpa [Machine.snapshot] using output

theorem decode_snapshot (fits : m.Fits) :
    Image.decode (.ofBytes m.snapshot.encode) = .ok m.snapshot := by
  have read := Image.decode_encode m.snapshot fits.snapshot [] none
  rw [List.append_nil, normal_snapshot] at read
  exact read

private theorem toInt_word {n : Nat} (small : n < 0x8000000000000000) :
    (Int64.ofNat n).toInt = n := Int64.toInt_ofNat_of_lt small

theorem create_snapshot (fits : m.Fits) (consistent : m.Consistent) :
    ∃ fresh, create m.snapshot.sizes = .ok fresh ∧ fresh.tape.size = m.tape.size ∧
      fresh.input.capacity = m.input.capacity ∧ fresh.output.capacity = m.output.capacity := by
  have sizes : m.snapshot.sizes = [(.cells, (m.tape.size : Int)), (.input, (m.input.capacity : Int)),
      (.output, (m.output.capacity : Int))] := by
    simp [Image.sizes, snapshot, toInt_word fits.input, toInt_word fits.output, Tape.size]
  have created := create_three (Nat.zero_lt_of_lt m.tape.pointer_lt) consistent.inputRoom
    consistent.outputRoom
  exact ⟨_, by rw [sizes]; exact created, size_tape_ofSizes _, capacity_input_ofSizes _,
    capacity_output_ofSizes _⟩

private theorem snapshot_numbers (fits : m.Fits) (consistent : m.Consistent) :
    m.snapshot.pc.toInt = m.pc ∧ m.snapshot.pointer.toInt = m.tape.pointer ∧
      m.snapshot.state.toInt = m.state.toNat := by
  have pc := Nat.lt_of_le_of_lt consistent.pc_le fits.program
  have pointer : m.tape.pointer < 0x8000000000000000 := Nat.lt_trans m.tape.pointer_lt fits.cells
  refine ⟨toInt_word pc, toInt_word pointer, toInt_word ?_⟩
  cases m.state <;> decide

theorem locates_snapshot {fresh : Machine} (fits : m.Fits) (consistent : m.Consistent)
    (same : m.SameSizes fresh) : fresh.Locates m.snapshot m.tape := by
  obtain ⟨pc, pointer, _⟩ := snapshot_numbers fits consistent
  refine ⟨?_, ?_, ?_, ?_, ?_⟩
  · rw [same.cells]
    simp [snapshot, Tape.size]
  · rw [pointer]
    exact Int.natCast_nonneg _
  · rw [Tape.ofCells?_eq_some_iff, pointer]
    simp [snapshot]
  · rw [pc]
    exact Int.natCast_nonneg _
  · rw [pc]
    simpa [snapshot] using consistent.pc_le

private theorem runState_snapshot_iff (fits : m.Fits) (consistent : m.Consistent) (state : RunState) :
    m.snapshot.runState (m.snapshot.program.getD []) m.snapshot.pc.toInt.toNat = .ok state ↔
      state = m.state ∧ m.state.Agrees m.program.toList m.pc m.input.unread := by
  obtain ⟨pc, _, number⟩ := snapshot_numbers fits consistent
  have program : m.snapshot.program.getD [] = m.program.toList := Image.getD_field _
  have input : m.snapshot.input.getD [] = m.input.unread := Image.getD_field _
  rw [Image.runState_eq_ok_iff, pc, program, input, number, Int.toNat_natCast]
  constructor
  · rintro ⟨known, agrees⟩
    have same : state = m.state := by
      rw [← RunState.ofInt?_eq_some_iff, RunState.ofInt?_eq_some_iff.mpr rfl] at known
      exact (Option.some.inj known).symm
    rw [same] at agrees
    exact ⟨same, agrees⟩
  · rintro ⟨rfl, agrees⟩
    exact ⟨rfl, agrees⟩

private theorem Accepts.of_snapshot {fresh : Machine} {tape : Tape} {state : RunState}
    {jumps : JumpTable} (fits : m.Fits) (consistent : m.Consistent)
    (passes : fresh.Accepts m.snapshot tape state jumps) :
    tape = m.tape ∧ state = m.state ∧ jumps = m.jumps := by
  obtain ⟨_, pointer, _⟩ := snapshot_numbers fits consistent
  refine ⟨?_, ?_, ?_⟩
  · have placed := passes.tape
    have same : Tape.ofCells? (m.snapshot.cells.getD []) m.snapshot.pointer.toInt.toNat =
        some m.tape := by
      rw [Tape.ofCells?_eq_some_iff, pointer]
      simp [snapshot]
    rw [same, Option.some.injEq] at placed
    exact placed.symm
  · exact ((runState_snapshot_iff fits consistent state).mp passes.state).1
  · have linked := passes.linked
    simp only [snapshot, Image.getD_field] at linked
    rw [consistent.linked, Except.ok.injEq] at linked
    exact linked.symm

theorem Alike.of_restored {fresh j : Machine} (fits : m.Fits) (consistent : m.Consistent)
    (prepared : m.prepared = true) (inputSize : fresh.input.capacity = m.input.capacity)
    (outputSize : fresh.output.capacity = m.output.capacity)
    (restored : fresh.restore m.snapshot = .ok j) : m.Alike j := by
  obtain ⟨tape, state, jumps, passes, rfl⟩ := restore_eq_ok_iff.mp restored
  obtain ⟨rfl, rfl, rfl⟩ := passes.of_snapshot fits consistent
  obtain ⟨pc, _, _⟩ := snapshot_numbers fits consistent
  have input := passes.input
  have output := passes.output
  simp only [snapshot, Image.getD_field] at input output
  refine ⟨?_, rfl, ?_, rfl, prepared, rfl, ⟨?_, ?_⟩, ⟨?_, ?_⟩, rfl⟩
  · simp [Machine.restored, install, snapshot]
  · simp only [Machine.restored, pc, Int.toNat_natCast]
  · simp [Machine.restored, inputSize]
  · simp [Machine.restored, snapshot, List.take_of_length_le input]
  · simp [Machine.restored, outputSize]
  · simp [Machine.restored, snapshot, List.take_of_length_le output]

/-- The machine holds the empty program and has not run it. It is running at the end of its program,
as no other machine is. -/
def Unstarted (m : Machine) : Prop := m.program = #[] ∧ m.state = .running

private theorem Consistent.agrees_iff (consistent : m.Consistent) (settled : m.Settled)
    (prepared : m.prepared = true) :
    m.state.Agrees m.program.toList m.pc m.input.unread ↔ ¬ m.Unstarted := by
  cases now : m.state with
  | running =>
      have at_end : m.pc = m.program.size ↔ m.program = #[] := by
        constructor
        · intro ended
          rcases consistent.ended prepared ended with halted | ⟨empty, _⟩
          · rw [now] at halted
            cases halted
          · exact Array.size_eq_zero_iff.mp empty
        · intro empty
          have pc_le := consistent.pc_le
          rw [empty, Array.size_empty] at pc_le ⊢
          exact Nat.le_zero.mp pc_le
      simp [RunState.Agrees, Unstarted, now, at_end]
  | waiting =>
      have wants : m.program.toList[m.pc]? = some Instruction.input.toByte := by
        rw [Array.getElem?_toList]
        exact consistent.waiting now
      simp [RunState.Agrees, Unstarted, now, wants, settled now]
  | halted =>
      have ended := consistent.halted now
      simp [RunState.Agrees, Unstarted, now, ended]

theorem accepts_snapshot_iff {fresh : Machine} (fits : m.Fits) (consistent : m.Consistent)
    (same : m.SameSizes fresh) :
    fresh.Accepts m.snapshot m.tape m.state m.jumps ↔
      m.state.Agrees m.program.toList m.pc m.input.unread := by
  have known := runState_snapshot_iff fits consistent m.state
  refine ⟨fun passes => (known.mp passes.state).2, fun agrees => ?_⟩
  refine ⟨locates_snapshot fits consistent same, known.mpr ⟨rfl, agrees⟩, ?_, ?_, ?_⟩
  · rw [same.input]
    simpa [snapshot] using m.input.length_le_capacity
  · rw [same.output]
    simpa [snapshot] using m.output.length_le_capacity
  · simpa [snapshot] using consistent.linked

/-- The image of a machine can be restored unless the machine holds the empty program and has not run
it. -/
theorem exists_restore_snapshot_iff {fresh : Machine} (fits : m.Fits) (consistent : m.Consistent)
    (settled : m.Settled) (prepared : m.prepared = true) (same : m.SameSizes fresh) :
    (∃ j, fresh.restore m.snapshot = .ok j) ↔ ¬ m.Unstarted := by
  rw [← consistent.agrees_iff settled prepared, ← accepts_snapshot_iff fits consistent same]
  constructor
  · rintro ⟨j, restored⟩
    obtain ⟨tape, state, jumps, passes, _⟩ := restore_eq_ok_iff.mp restored
    obtain ⟨rfl, rfl, rfl⟩ := passes.of_snapshot fits consistent
    exact passes
  · intro passes
    exact ⟨_, restore_eq_ok_iff.mpr ⟨_, _, _, passes, rfl⟩⟩

theorem restore_snapshot {fresh : Machine} (fits : m.Fits) (consistent : m.Consistent)
    (settled : m.Settled) (prepared : m.prepared = true) (nonempty : m.program ≠ #[])
    (cells : fresh.tape.size = m.tape.size) (inputSize : fresh.input.capacity = m.input.capacity)
    (outputSize : fresh.output.capacity = m.output.capacity) :
    ∃ j, fresh.restore m.snapshot = .ok j :=
  (exists_restore_snapshot_iff fits consistent settled prepared ⟨cells, inputSize, outputSize⟩).mpr
    fun unstarted => nonempty unstarted.1

end Machine

/-- A machine that holds a program gives an image that can be written and read, and that asks for
sizes with which a new machine can be made. The image can be restored there if only requests to the
machine itself have led to it and its program is not empty. Wherever the image can be restored, both
machines answer every further sequence of requests alike, and look alike after it. -/
theorem Machine.restored_behaves_alike {sizes : List (Part × Int)} {start m : Machine}
    (created : create sizes = .ok start) (small : ∀ size ∈ sizes, size.2 < 0x8000000000000000)
    (led : start.Leads Request.Fits m) (prepared : m.prepared = true) :
    ∃ taken img fresh, m.image? = some taken ∧ Image.decode (.ofBytes taken.encode) = .ok img ∧
      create img.sizes = .ok fresh ∧
      (start.Leads (fun r => r.Own ∧ r.Fits) m → m.program ≠ #[] → ∃ j, fresh.restore img = .ok j) ∧
      ∀ j, fresh.restore img = .ok j → ∀ requests : List Request,
        (m.respond requests).map (fun reply => (reply.1.observation, reply.2)) =
          (j.respond requests).map fun reply => (reply.1.observation, reply.2) := by
  have consistent := (consistent_create created).leads led
  have fits := (fits_create created small).leads led
  obtain ⟨fresh, made, cells, inputSize, outputSize⟩ := create_snapshot fits consistent
  refine ⟨m.snapshot, m.snapshot, fresh, image?_of_prepared prepared, decode_snapshot fits, made,
    fun itself nonempty => ?_, fun j restored requests => ?_⟩
  · have settled := (settled_create created).leads (consistent_create created)
      (fun _ allowed => allowed.1) itself
    exact restore_snapshot fits consistent settled prepared nonempty cells inputSize outputSize
  · have alike := Alike.of_restored fits consistent prepared inputSize outputSize restored
    exact alike.respond_observation requests

/-- A machine whose output queue is full and whose input queue has been read from, so that what is
unread does not stand at the start of the storage, and its copy: both go on to the end. -/
theorem Machine.restored_behaves_alike_full : ∃ start m answers taken img fresh j,
    create [(.cells, 2), (.input, 2), (.output, 1)] = .ok start ∧
    start.respond [.prepare [44, 46, 44, 46], .call (.write [97, 98]), .call (.run 9)] =
      some (m, answers) ∧
    m.image? = some taken ∧ Image.decode (.ofBytes taken.encode) = .ok img ∧
    create img.sizes = .ok fresh ∧ fresh.restore img = .ok j ∧
    (m.respond [.call (.appendInput [99, 100, 101]), .call .nextOutput, .call (.run 9)]).map
        (fun reply => (reply.1.observation, reply.2)) =
      (j.respond [.call (.appendInput [99, 100, 101]), .call .nextOutput, .call (.run 9)]).map
        fun reply => (reply.1.observation, reply.2) := by
  obtain ⟨start, created, ran⟩ : ∃ start,
      create [(.cells, 2), (.input, 2), (.output, 1)] = .ok start ∧
      (start.respond [.prepare [44, 46, 44, 46], .call (.write [97, 98]), .call (.run 9)]).map
        (fun reply => (reply.1.prepared, reply.1.program)) = some (true, #[44, 46, 44, 46]) :=
    ⟨_, rfl, by decide +kernel⟩
  obtain ⟨⟨m, answers⟩, done, view⟩ := Option.map_eq_some_iff.mp ran
  simp only [Prod.mk.injEq] at view
  have fit : ∀ r ∈ [Request.prepare [44, 46, 44, 46], .call (.write [97, 98]), .call (.run 9)],
      r.Own ∧ r.Fits := by
    simp [Request.Own, Request.Fits]
  have itself := Leads.refl.respond fit done
  have led := Leads.refl.respond (fun r member => (fit r member).2) done
  obtain ⟨taken, img, fresh, image, read, made, restorable, same⟩ :=
    restored_behaves_alike created (by decide) led view.1
  obtain ⟨j, restored⟩ := restorable itself (by rw [view.2]; decide)
  exact ⟨start, m, answers, taken, img, fresh, j, created, done, image, read, made, restored,
    same j restored _⟩

end TapeMachine
