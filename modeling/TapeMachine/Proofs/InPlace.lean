import TapeMachine.Proofs.Snapshot
import TapeMachine.Proofs.Linking
/-!
# Restoring in place

A machine is restored by overwriting its parts one after another, so nothing may give up once the first
part has been overwritten. The checks come first, they decide, and what they have established makes the
two queues take what is put into them although nobody asks whether they did.
-/

set_option autoImplicit false
set_option relaxedAutoImplicit false

namespace TapeMachine

namespace Tape

def overwrite (t : Tape) (cells : List UInt8) : Tape :=
  ⟨Buffer.store t.cells 0 cells, t.pointer,
    Nat.lt_of_lt_of_eq t.pointer_lt (Buffer.size_store t.cells 0 cells).symm⟩

def seek (t : Tape) (offset : Nat) : Tape :=
  if inside : offset < t.cells.size then ⟨t.cells, offset, inside⟩ else t

private theorem overwrite_seek {t placed : Tape} {cells : List UInt8} {offset : Nat}
    (asMany : cells.length = t.size) (located : ofCells? cells offset = some placed) :
    (t.overwrite cells).seek offset = placed := by
  obtain ⟨content, pointer⟩ := ofCells?_eq_some_iff.mp located
  have stored : (Buffer.store t.cells 0 cells).toList = cells := by
    have size : t.cells.toList.length = cells.length := by
      rw [Array.length_toList]
      exact asMany.symm
    have fits : 0 + cells.length ≤ t.cells.size := by
      rw [asMany, Nat.zero_add]
      exact Nat.le_refl _
    rw [Buffer.toList_store _ _ _ fits, Nat.zero_add, ← size, List.drop_length]
    simp
  have same : (t.overwrite cells).cells = placed.cells := by
    apply Array.ext'
    rw [content]
    exact stored
  have inside : offset < (t.overwrite cells).cells.size := by
    rw [same, ← pointer]
    exact placed.pointer_lt
  rw [seek, dif_pos inside]
  obtain ⟨placedCells, placedPointer, bound⟩ := placed
  cases pointer
  cases same
  rfl

end Tape

namespace Buffer

/-- Appends bytes without asking whether they fit. -/
def put (b : Buffer) (bytes : List UInt8) : Buffer :=
  match b.appendAll bytes with
  | .ok b' => b'
  | .error _ => b

private theorem put_reset {b : Buffer} {bytes : List UInt8} (fits : bytes.length ≤ b.capacity) :
    b.reset.put bytes = b.refill bytes := by
  have empty : b.reset.length = 0 := rfl
  have start : b.reset.capacity - b.reset.stop = b.capacity := rfl
  have room : ¬ b.reset.capacity - b.reset.length < bytes.length := by
    rw [empty, capacity_reset]
    omega
  have ahead : ¬ b.reset.capacity - b.reset.stop < bytes.length := by
    rw [start]
    omega
  rw [put, appendAll, if_neg room, makeRoom, if_neg ahead]
  rfl

end Buffer

namespace Machine

/-- Steps that change a machine one after another. What has been changed stays changed if a later step
gives up. -/
abbrev Steps (ε α : Type) := ExceptT ε (StateM Machine) α

variable {ε α β : Type}

private theorem Steps.bind_ok {first : Steps ε α} {m m' : Machine} {a : α}
    (done : first.run m = (.ok a, m')) (next : α → Steps ε β) :
    (first >>= next).run m = (next a).run m' := by
  show ExceptT.bindCont next (first.run m).1 (first.run m).2 = _
  rw [done]
  rfl

private theorem Steps.bind_error {first : Steps ε α} {m m' : Machine} {e : ε}
    (refused : first.run m = (.error e, m')) (next : α → Steps ε β) :
    (first >>= next).run m = (.error e, m') := by
  show ExceptT.bindCont next (first.run m).1 (first.run m).2 = _
  rw [refused]
  rfl

def check (img : Image) : Steps RestoreError (RunState × JumpTable) := do
  let m ← get
  let program := img.program.getD []
  let cells := img.cells.getD []
  let input := img.input.getD []
  let output := img.output.getD []
  if cells.length ≠ m.tape.size then throw (.cellCount cells.length m.tape.size)
  else if img.pointer.toInt < 0 || cells.length ≤ img.pointer.toInt then
    throw (.pointerRange img.pointer.toInt)
  else if img.pc.toInt < 0 || program.length < img.pc.toInt then throw (.pcRange img.pc.toInt)
  else
    match img.runState program img.pc.toInt.toNat with
    | .error e => throw e
    | .ok state =>
      if m.input.capacity < input.length then throw (.inputFull input.length)
      else if m.output.capacity < output.length then throw (.outputFull output.length)
      else
        match link program with
        | .error e => throw (.mismatch e)
        | .ok jumps => pure (state, jumps)

/-- Overwrites the parts of a machine by those of an image. -/
def overwrite (img : Image) (state : RunState) (jumps : JumpTable) : Steps ε Unit := do
  modify fun m => m.install (img.program.getD []) jumps
  modify fun m => { m with pc := img.pc.toInt.toNat }
  modify fun m => { m with state := state }
  modify fun m => { m with count := img.count }
  modify fun m => { m with tape := m.tape.overwrite (img.cells.getD []) }
  modify fun m => { m with tape := m.tape.seek img.pointer.toInt.toNat }
  modify fun m => { m with input := m.input.reset }
  modify fun m => { m with input := m.input.put (img.input.getD []) }
  modify fun m => { m with output := m.output.reset }
  modify fun m => { m with output := m.output.put (img.output.getD []) }

def restoreInPlace (img : Image) : Steps RestoreError Unit := do
  let (state, jumps) ← check img
  overwrite img state jumps

def prepareInPlace (program : List UInt8) : Steps BracketError Unit := do
  match link program with
  | .error e => throw e
  | .ok jumps =>
    modify fun m => m.install program jumps
    modify fun m => { m with tape := m.tape.reset }
    modify fun m => { m with input := m.input.reset }
    modify fun m => { m with output := m.output.reset }

theorem prepareInPlace_run (program : List UInt8) (m : Machine) :
    (prepareInPlace program).run m =
      match m.prepare program with
      | .ok m' => (.ok (), m')
      | .error e => (.error e, m) := by
  unfold prepareInPlace prepare
  cases link program <;> rfl

private theorem overwrite_run {m : Machine} {img : Image} {tape : Tape} {state : RunState}
    {jumps : JumpTable} (passes : m.Accepts img tape state jumps) :
    (overwrite img state jumps : Steps ε Unit).run m = (.ok (), m.restored img tape state jumps) := by
  have placed : (m.tape.overwrite (img.cells.getD [])).seek img.pointer.toInt.toNat = tape :=
    Tape.overwrite_seek passes.cells passes.tape
  have input := Buffer.put_reset passes.input
  have output := Buffer.put_reset passes.output
  rw [restored, ← placed, ← input, ← output]
  rfl

private theorem Accepts.check_run {m : Machine} {img : Image} {tape : Tape} {state : RunState}
    {jumps : JumpTable} (passes : m.Accepts img tape state jumps) :
    (check img).run m = (.ok (state, jumps), m) := by
  have cells : ¬ (img.cells.getD []).length ≠ m.tape.size := not_not_intro passes.cells
  have pointer : ¬ (img.pointer.toInt < 0 || (img.cells.getD []).length ≤ img.pointer.toInt) = true := by
    obtain ⟨content, cursor⟩ := Tape.ofCells?_eq_some_iff.mp passes.tape
    have inside := tape.pointer_lt
    rw [← Array.length_toList, content, cursor] at inside
    have := passes.pointer
    simp only [Bool.or_eq_true, decide_eq_true_eq]
    omega
  have pc : ¬ (img.pc.toInt < 0 || (img.program.getD []).length < img.pc.toInt) = true := by
    have := passes.pc
    have := passes.pc_le
    simp only [Bool.or_eq_true, decide_eq_true_eq]
    omega
  have input := Nat.not_lt.mpr passes.input
  have output := Nat.not_lt.mpr passes.output
  show (if _ then _ else _ : Steps RestoreError (RunState × JumpTable)).run m = _
  rw [if_neg cells, if_neg pointer, if_neg pc, passes.state]
  show (if _ then _ else _ : Steps RestoreError (RunState × JumpTable)).run m = _
  rw [if_neg input, if_neg output, passes.linked]
  rfl

private theorem pointer_refused_iff (img : Image) :
    (if img.pointer.toInt < 0 then none
      else Tape.ofCells? (img.cells.getD []) img.pointer.toInt.toNat) = none ↔
      (img.pointer.toInt < 0 || (img.cells.getD []).length ≤ img.pointer.toInt) = true := by
  simp only [Bool.or_eq_true, decide_eq_true_eq, Tape.ofCells?]
  by_cases below : img.pointer.toInt < 0
  · simp [below]
  · by_cases inside : img.pointer.toInt.toNat < (img.cells.getD []).length
    · rw [if_neg below, dif_pos inside]
      simp only [reduceCtorEq, false_iff]
      omega
    · rw [if_neg below, dif_neg inside]
      simp only [true_iff]
      omega

private theorem check_run_of_error {m : Machine} {img : Image} {e : RestoreError}
    (refused : m.restore img = .error e) : (check img).run m = (.error e, m) := by
  show (if _ then _ else _ : Steps RestoreError (RunState × JumpTable)).run m = _
  unfold restore at refused
  simp only [] at refused
  split at refused
  case isTrue cells =>
    cases refused
    rw [if_pos cells]
    rfl
  case isFalse cells =>
    rw [if_neg cells]
    split at refused
    case h_1 placed =>
      cases refused
      rw [if_pos ((pointer_refused_iff img).mp placed)]
      rfl
    case h_2 tape placed =>
      have found := placed
      rw [if_neg fun out => absurd ((pointer_refused_iff img).mpr out) (by rw [found]; nofun)]
      split at refused
      case isTrue pc =>
        cases refused
        rw [if_pos pc]
        rfl
      case isFalse pc =>
        rw [if_neg pc]
        cases checked : img.runState (img.program.getD []) img.pc.toInt.toNat with
        | error fault =>
            rw [checked] at refused
            cases refused
            rfl
        | ok state =>
            rw [checked] at refused
            simp only [] at refused
            show (if _ then _ else _ : Steps RestoreError (RunState × JumpTable)).run m = _
            split at refused
            case isTrue input =>
              cases refused
              rw [if_pos input]
              rfl
            case isFalse input =>
              rw [if_neg input]
              split at refused
              case isTrue output =>
                cases refused
                rw [if_pos output]
                rfl
              case isFalse output =>
                rw [if_neg output]
                cases mismatched : link (img.program.getD []) with
                | error fault =>
                    rw [mismatched] at refused
                    cases refused
                    rfl
                | ok jumps =>
                    rw [mismatched] at refused
                    cases refused

theorem restoreInPlace_run (img : Image) (m : Machine) :
    (restoreInPlace img).run m =
      match m.restore img with
      | .ok m' => (.ok (), m')
      | .error e => (.error e, m) := by
  cases done : m.restore img with
  | ok m' =>
      obtain ⟨tape, state, jumps, passes, rfl⟩ := restore_eq_ok_iff.mp done
      rw [restoreInPlace, Steps.bind_ok passes.check_run]
      exact overwrite_run passes
  | error e =>
      rw [restoreInPlace]
      exact Steps.bind_error (check_run_of_error done) _

/-- An image that a machine can take: it has as many cells, cursor and program counter are in range, the
brackets of its program are balanced, what is unread fits, and its run state agrees with the program
counter and the unread input. -/
structure Admits (m : Machine) (img : Image) : Prop where
  cells : (img.cells.getD []).length = m.tape.size
  pointer : 0 ≤ img.pointer.toInt ∧ img.pointer.toInt < (img.cells.getD []).length
  pc : 0 ≤ img.pc.toInt ∧ img.pc.toInt ≤ (img.program.getD []).length
  balanced : Balanced (img.program.getD [])
  input : (img.input.getD []).length ≤ m.input.capacity
  output : (img.output.getD []).length ≤ m.output.capacity
  state :
    img.state = 0 ∧ img.pc.toInt < (img.program.getD []).length ∨
    img.state = 1 ∧ img.pc.toInt < (img.program.getD []).length ∧
      (img.program.getD [])[img.pc.toInt.toNat]? = some Instruction.input.toByte ∧
      img.input.getD [] = [] ∨
    img.state = 2 ∧ img.pc.toInt = (img.program.getD []).length

private theorem exists_runState_iff {img : Image} (low : 0 ≤ img.pc.toInt)
    (high : img.pc.toInt ≤ (img.program.getD []).length) :
    (∃ state, img.runState (img.program.getD []) img.pc.toInt.toNat = .ok state) ↔
      (img.state = 0 ∧ img.pc.toInt < (img.program.getD []).length ∨
      img.state = 1 ∧ img.pc.toInt < (img.program.getD []).length ∧
        (img.program.getD [])[img.pc.toInt.toNat]? = some Instruction.input.toByte ∧
        img.input.getD [] = [] ∨
      img.state = 2 ∧ img.pc.toInt = (img.program.getD []).length) := by
  have number (n : Int64) : img.state.toInt = n.toInt ↔ img.state = n := Int64.toInt_inj
  simp only [Image.runState_eq_ok_iff]
  constructor
  · rintro ⟨state, known, agrees⟩
    cases state with
    | running =>
        have ahead : img.pc.toInt.toNat ≠ (img.program.getD []).length := agrees
        exact Or.inl ⟨(number 0).mp known, by omega⟩
    | waiting =>
        obtain ⟨wants, empty⟩ : (img.program.getD [])[img.pc.toInt.toNat]? =
          some Instruction.input.toByte ∧ img.input.getD [] = [] := agrees
        have inside := (List.getElem?_eq_some_iff.mp wants).1
        exact Or.inr (Or.inl ⟨(number 1).mp known, by omega, wants, empty⟩)
    | halted =>
        have ended : img.pc.toInt.toNat = (img.program.getD []).length := agrees
        exact Or.inr (Or.inr ⟨(number 2).mp known, by omega⟩)
  · rintro (⟨known, ahead⟩ | ⟨known, ahead, wants, empty⟩ | ⟨known, ended⟩)
    · have before : img.pc.toInt.toNat ≠ (img.program.getD []).length := by omega
      exact ⟨.running, (number 0).mpr known, before⟩
    · exact ⟨.waiting, (number 1).mpr known, wants, empty⟩
    · have at_end : img.pc.toInt.toNat = (img.program.getD []).length := by omega
      exact ⟨.halted, (number 2).mpr known, at_end⟩

theorem exists_restore_iff_admits {m : Machine} {img : Image} :
    (∃ m', m.restore img = .ok m') ↔ m.Admits img := by
  simp only [restore_eq_ok_iff]
  constructor
  · rintro ⟨m', tape, state, jumps, passes, -⟩
    obtain ⟨content, cursor⟩ := Tape.ofCells?_eq_some_iff.mp passes.tape
    have inside : img.pointer.toInt < (img.cells.getD []).length := by
      have bound := tape.pointer_lt
      rw [← Array.length_toList, content, cursor] at bound
      have := passes.pointer
      omega
    exact {
      cells := passes.cells
      pointer := ⟨passes.pointer, inside⟩
      pc := ⟨passes.pc, passes.pc_le⟩
      balanced := exists_link_iff_balanced.mp ⟨jumps, passes.linked⟩
      input := passes.input
      output := passes.output
      state := (exists_runState_iff passes.pc passes.pc_le).mp ⟨state, passes.state⟩ }
  · intro admits
    have inside : img.pointer.toInt.toNat < (img.cells.getD []).length := by
      have := admits.pointer
      omega
    obtain ⟨state, checked⟩ := (exists_runState_iff admits.pc.1 admits.pc.2).mpr admits.state
    obtain ⟨jumps, linked⟩ := exists_link_iff_balanced.mpr admits.balanced
    have located : m.Locates img ⟨(img.cells.getD []).toArray, img.pointer.toInt.toNat, inside⟩ :=
      ⟨admits.cells, admits.pointer.1, dif_pos inside, admits.pc.1, admits.pc.2⟩
    exact ⟨_, _, state, jumps, ⟨located, checked, admits.input, admits.output, linked⟩, rfl⟩

private theorem ofNat_toNat_toInt {n : Int64} (notNegative : 0 ≤ n.toInt) :
    Int64.ofNat n.toInt.toNat = n := by
  have high := n.toInt_lt
  apply Int64.toInt_inj.mp
  rw [Int64.toInt_ofNat_of_lt (by omega)]
  omega

private theorem Accepts.image?_restored {m : Machine} {img : Image} {tape : Tape} {state : RunState}
    {jumps : JumpTable} (passes : m.Accepts img tape state jumps) :
    (m.restored img tape state jumps).image? = some { img with
      program := Image.field (img.program.getD [])
      cells := Image.field (img.cells.getD [])
      input := Image.field (img.input.getD [])
      output := Image.field (img.output.getD [])
      inputSize := Int64.ofNat m.input.capacity
      outputSize := Int64.ofNat m.output.capacity } := by
  obtain ⟨content, cursor⟩ := Tape.ofCells?_eq_some_iff.mp passes.tape
  have number : Int64.ofNat state.toNat = img.state := by
    obtain ⟨known, -⟩ := Image.runState_eq_ok_iff.mp passes.state
    rw [← ofNat_toNat_toInt (n := img.state) (by omega), known]
    rfl
  have pc := ofNat_toNat_toInt passes.pc
  have pointer := ofNat_toNat_toInt passes.pointer
  have input : (m.input.refill (img.input.getD [])).unread = img.input.getD [] := by
    rw [Buffer.unread_refill, List.take_of_length_le passes.input]
  have output : (m.output.refill (img.output.getD [])).unread = img.output.getD [] := by
    rw [Buffer.unread_refill, List.take_of_length_le passes.output]
  rw [image?_of_prepared (show (m.restored img tape state jumps).prepared = true from rfl)]
  simp only [snapshot, restored, install, content, cursor, number, pc, pointer, input, output,
    Buffer.capacity_refill]

/-- An image is restored exactly if the machine admits it. Then the machine has that image, with its own
capacities and with empty parts absent, and everything unread is in its queues. A machine that is not
restored, or not loaded, is left as it was, although it would have been overwritten part by part. -/
theorem restored_or_untouched (m : Machine) (img : Image) (program : List UInt8) :
    ((∃ m', m.restore img = .ok m') ↔ m.Admits img) ∧
    (∀ m', m.restore img = .ok m' →
      (restoreInPlace img).run m = (.ok (), m') ∧
      m'.image? = some { img with
        program := Image.field (img.program.getD [])
        cells := Image.field (img.cells.getD [])
        input := Image.field (img.input.getD [])
        output := Image.field (img.output.getD [])
        inputSize := Int64.ofNat m.input.capacity
        outputSize := Int64.ofNat m.output.capacity } ∧
      m'.input.unread = img.input.getD [] ∧ m'.output.unread = img.output.getD [] ∧
      m'.input.capacity = m.input.capacity ∧ m'.output.capacity = m.output.capacity) ∧
    (∀ e, m.restore img = .error e →
      (restoreInPlace img).run m = (.error e, m) ∧
      (Request.restore img).perform m = some (m, .unrestored e)) ∧
    ∀ e, m.prepare program = .error e →
      (prepareInPlace program).run m = (.error e, m) ∧
      (Request.prepare program).perform m = some (m, .mismatched e) := by
  refine ⟨exists_restore_iff_admits, ?_, ?_, ?_⟩
  · intro m' done
    have inPlace := restoreInPlace_run img m
    rw [done] at inPlace
    obtain ⟨tape, state, jumps, passes, rfl⟩ := restore_eq_ok_iff.mp done
    refine ⟨inPlace, passes.image?_restored, ?_, ?_, ?_, ?_⟩
    · exact (Buffer.unread_refill _ _).trans (List.take_of_length_le passes.input)
    · exact (Buffer.unread_refill _ _).trans (List.take_of_length_le passes.output)
    · exact Buffer.capacity_refill _ _
    · exact Buffer.capacity_refill _ _
  · intro e refused
    have inPlace := restoreInPlace_run img m
    rw [refused] at inPlace
    refine ⟨inPlace, ?_⟩
    rw [Request.perform, refused]
  · intro e refused
    have inPlace := prepareInPlace_run program m
    rw [refused] at inPlace
    refine ⟨inPlace, ?_⟩
    rw [Request.perform, refused]

end Machine

end TapeMachine
