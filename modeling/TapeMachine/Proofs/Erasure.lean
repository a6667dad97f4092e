import TapeMachine.Proofs.Alike
import TapeMachine.Proofs.Consistency
import TapeMachine.Proofs.Schedule
/-!
# Erasing the past

Loading a program and restoring an image reuse the tape and the storage of the queues. Old bytes stay
in the storage, outside the cursors. Nothing of the past can be seen afterwards: of two machines of the
same sizes both requests make machines that are alike, whatever the two held before.
-/

set_option autoImplicit false
set_option relaxedAutoImplicit false

namespace TapeMachine

namespace Machine

/-- No sequence of requests tells the machines apart: where one of them returns the other does, all
answers are the same, and the machines are alike after every request. -/
def Indistinguishable (m m' : Machine) : Prop :=
  ∀ requests : List Request, Option.Rel Alike.Replies (m.respond requests) (m'.respond requests)

variable {m m' : Machine}

theorem SameSizes.symm (same : m.SameSizes m') : m'.SameSizes m :=
  ⟨same.cells.symm, same.input.symm, same.output.symm⟩

private theorem Reachable.exists_create (reached : m.Reachable) :
    ∃ sizes fresh, create sizes = .ok fresh ∧ m.SameSizes fresh := by
  obtain ⟨sizes, start, created, led⟩ := reached
  exact ⟨sizes, start, created, led.sameSizes.symm⟩

theorem SameSizes.alike_loaded (same : m.SameSizes m') (program : List UInt8) (jumps : JumpTable) :
    (m.loaded program jumps).Alike (m'.loaded program jumps) := by
  have tape : m.tape.reset = m'.tape.reset := Tape.reset_of_size same.cells.symm
  have input := Buffer.Alike.reset_of_capacity same.input.symm
  have output := Buffer.Alike.reset_of_capacity same.output.symm
  exact ⟨rfl, rfl, rfl, rfl, rfl, tape, input, output, rfl⟩

private theorem SameSizes.alike_restored (same : m.SameSizes m') (img : Image) (tape : Tape)
    (state : RunState) (jumps : JumpTable) :
    (m.restored img tape state jumps).Alike (m'.restored img tape state jumps) := by
  have input := Buffer.Alike.refill_of_capacity same.input.symm (img.input.getD [])
  have output := Buffer.Alike.refill_of_capacity same.output.symm (img.output.getD [])
  exact ⟨rfl, rfl, rfl, rfl, rfl, rfl, input, output, rfl⟩

theorem SameSizes.accepts {img : Image} {tape : Tape} {state : RunState} {jumps : JumpTable}
    (same : m.SameSizes m') (passes : m.Accepts img tape state jumps) :
    m'.Accepts img tape state jumps := by
  refine ⟨⟨?_, passes.pointer, passes.tape, passes.pc, passes.pc_le⟩, passes.state, ?_, ?_,
    passes.linked⟩
  · rw [same.cells]
    exact passes.cells
  · rw [same.input]
    exact passes.input
  · rw [same.output]
    exact passes.output

private theorem SameSizes.prepare (same : m.SameSizes m') {program : List UInt8} {k : Machine}
    (prepared : m.prepare program = .ok k) :
    ∃ k', m'.prepare program = .ok k' ∧ k.Indistinguishable k' := by
  obtain ⟨jumps, linked, rfl⟩ := prepare_eq_ok_iff.mp prepared
  have alike := same.alike_loaded program jumps
  exact ⟨_, prepare_eq_ok_iff.mpr ⟨jumps, linked, rfl⟩, alike.respond⟩

private theorem SameSizes.restore (same : m.SameSizes m') {img : Image} {k : Machine}
    (restored : m.restore img = .ok k) :
    ∃ k', m'.restore img = .ok k' ∧ k.Indistinguishable k' := by
  obtain ⟨tape, state, jumps, passes, rfl⟩ := restore_eq_ok_iff.mp restored
  have passes' := same.accepts passes
  have alike := same.alike_restored img tape state jumps
  exact ⟨_, restore_eq_ok_iff.mpr ⟨tape, state, jumps, passes', rfl⟩, alike.respond⟩

/-- Loading a program that links, and restoring an image that is accepted, make of a reachable machine,
of any other one of its sizes and of a new machine of these sizes machines that no further sequence of
requests tells apart. What one of them loads or accepts, all of them do. -/
theorem load_restore_erase_history (reached : m.Reachable) (same : m.SameSizes m') :
    ∃ sizes fresh, create sizes = .ok fresh ∧ m.SameSizes fresh ∧ m'.SameSizes fresh ∧
      (∀ program jumps, link program = .ok jumps → ∃ k k' new,
        m.prepare program = .ok k ∧ m'.prepare program = .ok k' ∧
          fresh.prepare program = .ok new ∧
          k.Indistinguishable k' ∧ k.Indistinguishable new ∧ k'.Indistinguishable new) ∧
      ∀ img k, m.restore img = .ok k → ∃ k' new,
        m'.restore img = .ok k' ∧ fresh.restore img = .ok new ∧
          k.Indistinguishable k' ∧ k.Indistinguishable new ∧ k'.Indistinguishable new := by
  obtain ⟨sizes, fresh, created, sameFresh⟩ := reached.exists_create
  have sameFresh' : m'.SameSizes fresh := same.symm.trans sameFresh
  refine ⟨sizes, fresh, created, sameFresh, sameFresh', ?_, ?_⟩
  · intro program jumps linked
    have prepared : m.prepare program = .ok (m.loaded program jumps) :=
      prepare_eq_ok_iff.mpr ⟨jumps, linked, rfl⟩
    obtain ⟨k', prepared', apart⟩ := same.prepare prepared
    obtain ⟨new, preparedNew, apartNew⟩ := sameFresh.prepare prepared
    obtain ⟨new', preparedNew', apartNew'⟩ := sameFresh'.prepare prepared'
    rw [preparedNew, Except.ok.injEq] at preparedNew'
    subst preparedNew'
    exact ⟨_, k', new, prepared, prepared', preparedNew, apart, apartNew, apartNew'⟩
  · intro img k restored
    obtain ⟨k', restored', apart⟩ := same.restore restored
    obtain ⟨new, restoredNew, apartNew⟩ := sameFresh.restore restored
    obtain ⟨new', restoredNew', apartNew'⟩ := sameFresh'.restore restored'
    rw [restoredNew, Except.ok.injEq] at restoredNew'
    subst restoredNew'
    exact ⟨k', new, restored', restoredNew, apart, apartNew, apartNew'⟩

/-- One machine has run a program, which has left bytes in both queues and on the tape; the other has
only been touched from outside. -/
theorem load_restore_erase_history_used : ∃ start m m' answers answers' k k' j j',
    create [(.cells, 2), (.input, 2), (.output, 1)] = .ok start ∧
    start.respond [.prepare [44, 46, 44], .call (.write [97, 98]), .call (.run 9)] =
      some (m, answers) ∧
    start.respond [.input (.append 7), .tape .decrement, .tape .moveRight] = some (m', answers') ∧
    m.prepare [44, 46] = .ok k ∧ m'.prepare [44, 46] = .ok k' ∧ k.Indistinguishable k' ∧
    m.restore ⟨some [46, 44], 0, 0, 1, some [5, 6], some [3], none, 9, 9, 4⟩ = .ok j ∧
    m'.restore ⟨some [46, 44], 0, 0, 1, some [5, 6], some [3], none, 9, 9, 4⟩ = .ok j' ∧
    j.Indistinguishable j' := by
  obtain ⟨start, created, m, answers, done, j, restored⟩ : ∃ start,
      create [(.cells, 2), (.input, 2), (.output, 1)] = .ok start ∧ ∃ m answers,
      start.respond [.prepare [44, 46, 44], .call (.write [97, 98]), .call (.run 9)] =
        some (m, answers) ∧ ∃ j,
      m.restore ⟨some [46, 44], 0, 0, 1, some [5, 6], some [3], none, 9, 9, 4⟩ = .ok j :=
    ⟨_, rfl, _, _, rfl, _, rfl⟩
  obtain ⟨m', answers', done'⟩ : ∃ m' answers',
      start.respond [.input (.append 7), .tape .decrement, .tape .moveRight] = some (m', answers') :=
    ⟨_, _, rfl⟩
  have led : start.Leads (fun _ => True) m := Leads.refl.respond (fun _ _ => trivial) done
  have led' : start.Leads (fun _ => True) m' := Leads.refl.respond (fun _ _ => trivial) done'
  have same : m.SameSizes m' := led.sameSizes.symm.trans led'.sameSizes
  obtain ⟨_, _, _, _, _, loads, restores⟩ :=
    load_restore_erase_history ⟨_, start, created, led⟩ same
  obtain ⟨k, k', _, prepared, prepared', _, apart, _⟩ := loads [44, 46] _ rfl
  obtain ⟨j', _, restored', _, apart', _⟩ := restores _ j restored
  exact ⟨start, m, m', answers, answers', k, k', j, j', created, done, done', prepared, prepared',
    apart, restored, restored', apart'⟩

end Machine

end TapeMachine
