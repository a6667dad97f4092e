import TapeMachine.Proofs.Snapshot
/-!
# Which snapshots can be restored

Restoring judges an image without knowing how it came about. It takes back every image that a machine
gives, with one exception: the empty program, loaded and not run yet, is running at its end, and no
image may be that.
-/

set_option autoImplicit false
set_option relaxedAutoImplicit false

namespace TapeMachine.Machine

variable {m : Machine}

private theorem restore_snapshot_of_unstarted {fresh : Machine} (fits : m.Fits)
    (consistent : m.Consistent) (same : m.SameSizes fresh) (unstarted : m.Unstarted) :
    fresh.restore m.snapshot = .error .runningAtEnd := by
  obtain ⟨empty, running⟩ := unstarted
  have number : m.snapshot.state.toInt = RunState.running.toNat := by
    simp only [snapshot, running]
    rfl
  have program : m.snapshot.program.getD [] = [] := by
    simp only [snapshot, empty]
    rfl
  have located := locates_snapshot fits consistent same
  have at_end : m.snapshot.pc.toInt.toNat = (m.snapshot.program.getD []).length := by
    have pc_le := located.pc_le
    rw [program] at pc_le ⊢
    exact Int.toNat_eq_zero.mpr pc_le
  rw [located.restore_eq, at_end, Image.runState_of_running_at_end number]

/-- A machine that only requests to itself have led to, and that holds a program, gives an image that
asks for sizes with which a new machine can be made. Both the new machine and the machine itself take
the image back, and the latter cannot be told afterwards from what it was; unless the program is empty
and has not been run, which both refuse. -/
theorem snapshot_restorable {sizes : List (Part × Int)} {start m : Machine}
    (created : create sizes = .ok start) (small : ∀ size ∈ sizes, size.2 < 0x8000000000000000)
    (led : start.Leads (fun r => r.Own ∧ r.Fits) m) (prepared : m.prepared = true) :
    ∃ taken fresh, m.image? = some taken ∧ create taken.sizes = .ok fresh ∧
      (¬ m.Unstarted →
        (∃ j, fresh.restore taken = .ok j ∧ m.Alike j) ∧
        ∃ m', m.restore taken = .ok m' ∧ m.Alike m' ∧ ∀ requests : List Request,
          (m.respond requests).map (fun reply => (reply.1.observation, reply.2)) =
            (m'.respond requests).map fun reply => (reply.1.observation, reply.2)) ∧
      (m.Unstarted →
        fresh.restore taken = .error .runningAtEnd ∧ m.restore taken = .error .runningAtEnd) := by
  have consistent := (consistent_create created).leads led
  have settled := (settled_create created).leads (consistent_create created)
    (fun _ allowed => allowed.1) led
  have fits := (fits_create created small).leads (led.mono fun _ allowed => allowed.2)
  obtain ⟨fresh, made, cells, inputSize, outputSize⟩ := create_snapshot fits consistent
  have sameFresh : m.SameSizes fresh := ⟨cells, inputSize, outputSize⟩
  have sameSelf : m.SameSizes m := ⟨rfl, rfl, rfl⟩
  refine ⟨m.snapshot, fresh, image?_of_prepared prepared, made, fun started => ⟨?_, ?_⟩,
    fun unstarted => ⟨?_, ?_⟩⟩
  · obtain ⟨j, restored⟩ :=
      (exists_restore_snapshot_iff fits consistent settled prepared sameFresh).mpr started
    exact ⟨j, restored, .of_restored fits consistent prepared inputSize outputSize restored⟩
  · obtain ⟨m', restored⟩ :=
      (exists_restore_snapshot_iff fits consistent settled prepared sameSelf).mpr started
    have alike := Alike.of_restored fits consistent prepared rfl rfl restored
    exact ⟨m', restored, alike, alike.respond_observation⟩
  · exact restore_snapshot_of_unstarted fits consistent sameFresh unstarted
  · exact restore_snapshot_of_unstarted fits consistent sameSelf unstarted

/-- The empty program after it has been run. -/
theorem snapshot_restorable_empty : ∃ start m answers taken fresh j m',
    create [(.cells, 1), (.input, 1), (.output, 1)] = .ok start ∧
    start.respond [.prepare [], .call (.run 1)] = some (m, answers) ∧
    m.image? = some taken ∧ create taken.sizes = .ok fresh ∧ fresh.restore taken = .ok j ∧
    m.restore taken = .ok m' ∧ m.observation = m'.observation := by
  obtain ⟨start, created, ran⟩ : ∃ start,
      create [(.cells, 1), (.input, 1), (.output, 1)] = .ok start ∧
      (start.respond [.prepare [], .call (.run 1)]).map
        (fun reply => (reply.1.prepared, reply.1.state)) = some (true, .halted) :=
    ⟨_, rfl, by decide +kernel⟩
  obtain ⟨⟨m, answers⟩, done, view⟩ := Option.map_eq_some_iff.mp ran
  simp only [Prod.mk.injEq] at view
  have allowed : ∀ r ∈ [Request.prepare [], .call (.run 1)], r.Own ∧ r.Fits := by
    simp [Request.Own, Request.Fits]
  have started : ¬ m.Unstarted := fun unstarted => by simp [unstarted.2] at view
  obtain ⟨taken, fresh, image, made, restorable, _⟩ :=
    snapshot_restorable created (by decide) (Leads.refl.respond allowed done) view.1
  obtain ⟨⟨j, restored, _⟩, m', again, alike, _⟩ := restorable started
  exact ⟨start, m, answers, taken, fresh, j, m', created, done, image, made, restored, again,
    alike.observation⟩

/-- The empty program before it has been run: neither a new machine nor the machine itself takes the
image back. -/
theorem empty_unstarted_unrestorable : ∃ start m taken fresh,
    create [(.cells, 1), (.input, 1), (.output, 1)] = .ok start ∧
    start.respond [.prepare []] = some (m, [.done]) ∧ m.image? = some taken ∧
    create taken.sizes = .ok fresh ∧ fresh.restore taken = .error .runningAtEnd ∧
    m.restore taken = .error .runningAtEnd :=
  ⟨_, _, _, _, rfl, rfl, rfl, rfl, rfl, rfl⟩

end TapeMachine.Machine
