import Mathlib.Algebra.Order.Ring.Int
import TapeMachine.Proofs.Execution
/-!
# Tape arithmetic

What a sequence of moves, increments and decrements does to a tape. The cursor ends as far from where
it was as there are more moves right than left, modulo the number of cells, and a cell changes by what
is added to it and taken from it while the cursor is there, modulo 256. Both are counted in the
sequence alone, so that sequences with the same counts do the same.
-/

set_option autoImplicit false
set_option relaxedAutoImplicit false

namespace TapeMachine

namespace Tape

/-- A move of the cursor, or a change of the current cell. -/
inductive Stroke where
  | right
  | left
  | increment
  | decrement
  deriving DecidableEq, Repr

namespace Stroke

def apply (t : Tape) : Stroke → Tape
  | .right => t.moveRight
  | .left => t.moveLeft
  | .increment => t.increment
  | .decrement => t.decrement

def instruction : Stroke → Instruction
  | .right => .right
  | .left => .left
  | .increment => .increment
  | .decrement => .decrement

def opposite : Stroke → Stroke
  | .right => .left
  | .left => .right
  | .increment => .decrement
  | .decrement => .increment

def isChange : Stroke → Bool
  | .right | .left => false
  | .increment | .decrement => true

end Stroke

def performAll (t : Tape) (strokes : List Stroke) : Tape := strokes.foldl Stroke.apply t

def cell (t : Tape) (c : Nat) : UInt8 := t.cells[c]?.getD 0

def shift (strokes : List Stroke) : Int := strokes.count .right - strokes.count .left

/-- The place of the cursor after strokes from a place on. -/
def place (size : Nat) (start : Int) (strokes : List Stroke) : Int := (start + shift strokes) % size

/-- How often a stroke is made while the cursor is on a cell. -/
def hits (size : Nat) (start : Int) (strokes : List Stroke) (stroke : Stroke) (c : Nat) : Nat :=
  (List.range strokes.length).countP fun i =>
    strokes[i]? = some stroke ∧ place size start (strokes.take i) = c

/-- What strokes add to a cell: the increments less the decrements that are made there. -/
def net (size : Nat) (start : Int) (strokes : List Stroke) (c : Nat) : Int :=
  hits size start strokes .increment c - hits size start strokes .decrement c

/-! ## Counting -/

variable {t t' : Tape} {strokes strokes' before after round : List Stroke} {s stroke : Stroke}
  {size c : Nat} {start start' : Int}

private theorem shift_append (before after : List Stroke) :
    shift (before ++ after) = shift before + shift after := by
  simp only [shift, List.count_append]
  omega

private theorem shift_of_isChange (change : s.isChange = true) : shift [s] = 0 := by
  cases s with
  | right | left => exact absurd change nofun
  | increment | decrement => rfl

private theorem place_append (size : Nat) (start : Int) (before after : List Stroke) :
    place size start (before ++ after) = place size (start + shift before) after := by
  rw [place, place, shift_append, Int.add_assoc]

private theorem place_congr (same : start % size = start' % size) (strokes : List Stroke) :
    place size start strokes = place size start' strokes := by
  rw [place, place, Int.add_emod, same, ← Int.add_emod]

private theorem hits_congr (same : start % size = start' % size) (strokes : List Stroke)
    (stroke : Stroke)
    (c : Nat) : hits size start strokes stroke c = hits size start' strokes stroke c := by
  simp only [hits, place_congr same]

private theorem hits_singleton (size : Nat) (start : Int) (s stroke : Stroke) (c : Nat) :
    hits size start [s] stroke c = if s = stroke ∧ start % size = c then 1 else 0 := by
  simp [hits, place, shift, List.range_succ]

private theorem hits_append (size : Nat) (start : Int) (before after : List Stroke)
    (stroke : Stroke) (c : Nat) :
    hits size start (before ++ after) stroke c =
      hits size start before stroke c + hits size (start + shift before) after stroke c := by
  have first : (List.range before.length).countP (fun i =>
      (before ++ after)[i]? = some stroke ∧ place size start ((before ++ after).take i) = c) =
        hits size start before stroke c := by
    apply List.countP_congr
    intro i member
    have inside := List.mem_range.mp member
    rw [List.getElem?_append_left inside, List.take_append_of_le_length (Nat.le_of_lt inside)]
  have second : ((List.range after.length).map (before.length + ·)).countP (fun i =>
      (before ++ after)[i]? = some stroke ∧ place size start ((before ++ after).take i) = c) =
        hits size (start + shift before) after stroke c := by
    rw [List.countP_map]
    apply List.countP_congr
    intro i _
    have fetched : (before ++ after)[before.length + i]? = after[i]? := by
      rw [List.getElem?_append_right (Nat.le_add_right _ _), Nat.add_sub_cancel_left]
    simp only [Function.comp_apply, fetched, List.take_length_add_append, place_append]
  rw [hits, List.length_append, List.range_add, List.countP_append, first, second]

private theorem net_append (size : Nat) (start : Int) (before after : List Stroke) (c : Nat) :
    net size start (before ++ after) c =
      net size start before c + net size (start + shift before) after c := by
  simp only [net, hits_append]
  omega

private theorem net_congr (same : start % size = start' % size) (strokes : List Stroke) (c : Nat) :
    net size start strokes c = net size start' strokes c := by
  rw [net, net, hits_congr same, hits_congr same]

private theorem shift_opposite (s : Stroke) : shift [s, s.opposite] = 0 := by
  cases s <;> rfl

private theorem net_opposite (size : Nat) (start : Int) (s : Stroke) (c : Nat) :
    net size start [s, s.opposite] c = 0 := by
  have parts : net size start [s, s.opposite] c =
      net size start [s] c + net size (start + shift [s]) [s.opposite] c :=
    net_append size start [s] [s.opposite] c
  rw [parts]
  simp only [net, hits_singleton]
  cases s with
  | right | left => simp [Stroke.opposite]
  | increment | decrement => simp [Stroke.opposite, shift]

private theorem net_eq_zero_of_unvisited
    (unvisited : ∀ before s after, strokes = before ++ s :: after → s.isChange = true →
      place size start before ≠ c) : net size start strokes c = 0 := by
  have never (stroke : Stroke) (change : stroke.isChange = true) :
      hits size start strokes stroke c = 0 := by
    rw [hits, List.countP_eq_zero]
    intro i _ counted
    obtain ⟨fetched, there⟩ := of_decide_eq_true counted
    obtain ⟨inside, same⟩ := List.getElem?_eq_some_iff.mp fetched
    refine unvisited (strokes.take i) stroke (strokes.drop (i + 1)) ?_ change there
    rw [← same, List.getElem_cons_drop, List.take_append_drop]
  rw [net, never .increment rfl, never .decrement rfl]
  rfl

/-! ## Single strokes -/

private theorem size_pos (t : Tape) : 0 < t.size := Nat.zero_lt_of_lt t.pointer_lt

private theorem pointer_emod_size (t : Tape) : (t.pointer : Int) % t.size = t.pointer :=
  Int.emod_eq_of_lt (Int.natCast_nonneg _) (Int.ofNat_lt.mpr t.pointer_lt)

private theorem ext_cell (sizes : t.size = t'.size) (pointers : t.pointer = t'.pointer)
    (cells : ∀ c, t.cell c = t'.cell c) : t = t' := by
  obtain ⟨cells₁, pointer₁, _⟩ := t
  obtain ⟨cells₂, pointer₂, _⟩ := t'
  obtain rfl : pointer₁ = pointer₂ := pointers
  obtain rfl : cells₁ = cells₂ := by
    apply Array.ext sizes
    intro c inside inside'
    have same := cells c
    simpa [cell, inside, inside'] using same
  rfl

private theorem cell_write (t : Tape) (value : UInt8) (c : Nat) :
    (t.write value).cell c = if t.pointer = c then value else t.cell c := by
  simp only [cell, write, Array.getElem?_set]
  split <;> rfl

private theorem read_eq_cell (t : Tape) : t.read = t.cell t.pointer := by
  simp [cell, read, t.pointer_lt]

private theorem size_apply (t : Tape) (s : Stroke) : (s.apply t).size = t.size := by
  cases s with
  | right | left => rfl
  | increment | decrement => exact size_write _ _

private theorem pointer_moveLeft (t : Tape) : (t.moveLeft.pointer : Int) =
    (t.pointer - 1) % t.size := by
  have positive := t.size_pos
  -- the number of cells is added first, so that the natural number is not cut off at 0
  have around : ((t.pointer + t.size - 1 : Nat) : Int) = t.pointer - 1 + t.size := by omega
  calc (t.moveLeft.pointer : Int)
      = ((t.pointer + t.size - 1 : Nat) : Int) % t.size := rfl
    _ = (t.pointer - 1 + t.size) % t.size := by rw [around]
    _ = (t.pointer - 1) % t.size := Int.add_emod_right ..

private theorem pointer_apply (t : Tape) (s : Stroke) :
    ((s.apply t).pointer : Int) = place t.size t.pointer [s] := by
  cases s with
  | right => rfl
  | left => exact t.pointer_moveLeft
  | increment | decrement =>
      have unmoved : place t.size t.pointer [] = t.pointer := by simp [place, shift, pointer_emod_size]
      exact unmoved.symm

private theorem cell_apply (t : Tape) (s : Stroke) (c : Nat) :
    (((s.apply t).cell c).toNat : Int) = ((t.cell c).toNat + net t.size t.pointer [s] c) % 256 := by
  have small : (t.cell c).toNat < 256 := (t.cell c).toNat_lt
  have kept : ((t.cell c).toNat : Int) = (t.cell c).toNat % 256 := by omega
  rw [net, hits_singleton, hits_singleton, t.pointer_emod_size]
  cases s with
  | right | left =>
      simp only [reduceCtorEq, false_and, if_false, Int.natCast_zero, Int.sub_zero, Int.add_zero]
      exact kept
  | increment =>
      rw [Stroke.apply, increment, cell_write, read_eq_cell]
      by_cases here : t.pointer = c
      · simp [here, UInt8.toNat_add]
      · simpa [here] using kept
  | decrement =>
      rw [Stroke.apply, decrement, cell_write, read_eq_cell]
      by_cases here : t.pointer = c
      · simp [here, UInt8.toNat_sub]
        omega
      · simpa [here] using kept

/-! ## Sequences -/

@[simp]
theorem performAll_nil (t : Tape) : t.performAll [] = t := rfl

@[simp]
theorem performAll_cons (t : Tape) (s : Stroke) (strokes : List Stroke) :
    t.performAll (s :: strokes) = (s.apply t).performAll strokes := rfl

private theorem size_performAll (t : Tape) (strokes : List Stroke) :
    (t.performAll strokes).size = t.size := by
  induction strokes generalizing t with
  | nil => rfl
  | cons s strokes ih => rw [performAll_cons, ih, size_apply]

private theorem start_apply (t : Tape) (s : Stroke) :
    ((s.apply t).pointer : Int) % t.size = (t.pointer + shift [s]) % t.size := by
  rw [pointer_apply, place, Int.emod_emod_of_dvd _ (Int.dvd_refl _)]

theorem pointer_performAll (t : Tape) (strokes : List Stroke) :
    ((t.performAll strokes).pointer : Int) = place t.size t.pointer strokes := by
  induction strokes generalizing t with
  | nil => simp [place, shift, pointer_emod_size]
  | cons s strokes ih =>
      -- the rest starts where the first stroke leads, which is known modulo the number of cells
      calc (((s.apply t).performAll strokes).pointer : Int)
          = place (s.apply t).size (s.apply t).pointer strokes := ih (s.apply t)
        _ = place t.size (t.pointer + shift [s]) strokes := by
          rw [size_apply, place_congr (t.start_apply s)]
        _ = place t.size t.pointer (s :: strokes) := (place_append _ _ [s] strokes).symm

theorem cell_performAll (t : Tape) (strokes : List Stroke) (c : Nat) :
    (((t.performAll strokes).cell c).toNat : Int) =
      ((t.cell c).toNat + net t.size t.pointer strokes c) % 256 := by
  induction strokes generalizing t with
  | nil =>
      have small : (t.cell c).toNat < 256 := (t.cell c).toNat_lt
      simp only [performAll_nil, net, hits, List.length_nil, List.range_zero, List.countP_nil]
      omega
  | cons s strokes ih =>
      calc ((((s.apply t).performAll strokes).cell c).toNat : Int)
          = (((s.apply t).cell c).toNat +
              net (s.apply t).size (s.apply t).pointer strokes c) % 256 := ih (s.apply t)
        _ = ((t.cell c).toNat + net t.size t.pointer [s] c +
              net t.size (t.pointer + shift [s]) strokes c) % 256 := by
          rw [size_apply, net_congr (t.start_apply s), cell_apply, Int.emod_add_emod]
        _ = ((t.cell c).toNat + net t.size t.pointer (s :: strokes) c) % 256 := by
          have parts := net_append t.size t.pointer [s] strokes c
          rw [Int.add_assoc, ← parts, List.singleton_append]

theorem performAll_eq_of_net
    (places : place t.size t.pointer strokes = place t.size t.pointer strokes')
    (nets : ∀ c, net t.size t.pointer strokes c = net t.size t.pointer strokes' c) :
    t.performAll strokes = t.performAll strokes' := by
  apply ext_cell
  · rw [size_performAll, size_performAll]
  · apply Int.ofNat_inj.mp
    rw [pointer_performAll, pointer_performAll, places]
  · intro c
    apply UInt8.toNat_inj.mp
    apply Int.ofNat_inj.mp
    rw [cell_performAll, cell_performAll, nets c]

private theorem performAll_opposite (t : Tape) (before : List Stroke) (s : Stroke)
    (after : List Stroke) :
    t.performAll (before ++ ([s, s.opposite] ++ after)) = t.performAll (before ++ after) := by
  apply performAll_eq_of_net
  · simp only [place, shift_append, shift_opposite]
    simp
  · intro c
    simp only [net_append, net_opposite, shift_opposite]
    simp

private theorem performAll_round (t : Tape) (before after : List Stroke) (change : s.isChange = true)
    (back : (t.size : Int) ∣ shift round) :
    t.performAll (before ++ ([s] ++ (round ++ after))) =
      t.performAll (before ++ (round ++ ([s] ++ after))) := by
  have still := shift_of_isChange change
  apply performAll_eq_of_net
  · simp only [place, shift_append, still]
    simp
  · intro c
    have returned : (t.pointer + shift before + shift round) % t.size =
        (t.pointer + shift before) % t.size := by
      rw [Int.add_emod, Int.emod_eq_zero_of_dvd back, Int.add_zero,
        Int.emod_emod_of_dvd _ (Int.dvd_refl _)]
    simp only [net_append, still, Int.add_zero, net_congr returned [s]]
    omega

end Tape

/-! ## In a program -/

namespace Machine

open Tape (Stroke)

variable {m : Machine} {strokes : List Stroke} {s : Stroke}

private theorem execute_stroke (m : Machine) (s : Stroke) :
    m.execute (some s.instruction) = .executed ({ m with tape := s.apply m.tape }.goto (m.pc + 1)) := by
  cases s <;> rfl

private theorem executes_stroke (here : m.program[m.pc]? = some s.instruction.toByte) :
    m.Executes ({ m with tape := s.apply m.tape }.goto (m.pc + 1)) := by
  refine ⟨_, here, ?_⟩
  rw [Instruction.ofByte?_toByte]
  exact m.execute_stroke s

theorem runs_strokes (here : ∀ i s, strokes[i]? = some s →
      m.program[m.pc + i]? = some s.instruction.toByte) :
    ∃ m', Runs strokes.length m m' ∧ m'.tape = m.tape.performAll strokes ∧
      m'.pc = m.pc + strokes.length ∧ m'.input = m.input ∧ m'.output = m.output := by
  induction strokes generalizing m with
  | nil => exact ⟨m, .refl m, rfl, rfl, rfl, rfl⟩
  | cons s strokes ih =>
      have first : m.Executes ({ m with tape := s.apply m.tape }.goto (m.pc + 1)) :=
        executes_stroke (here 0 s rfl)
      obtain ⟨m', rest, tape, pc, input, output⟩ :=
        ih (m := { m with tape := s.apply m.tape }.goto (m.pc + 1)) fun i s' later => by
          have fetched := here (i + 1) s' later
          rw [Nat.add_comm i, ← Nat.add_assoc] at fetched
          exact fetched
      refine ⟨m', .step first rest, tape, ?_, input, output⟩
      rw [pc, List.length_cons, Nat.add_comm strokes.length, ← Nat.add_assoc]
      rfl

end Machine

namespace Tape

/-- The cursor moves modulo the number of cells and cells change modulo 256, by what the strokes alone
tell; a cell at which no change is made stays as it is. Opposite strokes in a row cancel, and a change
may as well be made after strokes that lead back to its cell, whatever they change elsewhere. A machine
that comes to such instructions in its program does just this to its tape. -/
theorem strokes_are_modular (t : Tape) (strokes : List Stroke) :
    (t.performAll strokes).size = t.size ∧
    ((t.performAll strokes).pointer : Int) =
      (t.pointer + strokes.count .right - strokes.count .left) % t.size ∧
    (∀ c, (((t.performAll strokes).cell c).toNat : Int) =
      ((t.cell c).toNat + net t.size t.pointer strokes c) % 256) ∧
    (∀ c : Nat, (∀ before s after, strokes = before ++ s :: after → s.isChange = true →
      place t.size t.pointer before ≠ c) → (t.performAll strokes).cell c = t.cell c) ∧
    (∀ before s after, strokes = before ++ s :: s.opposite :: after →
      t.performAll strokes = t.performAll (before ++ after)) ∧
    (∀ before s round after, strokes = before ++ s :: (round ++ after) → s.isChange = true →
      (t.size : Int) ∣ shift round →
        t.performAll strokes = t.performAll (before ++ (round ++ s :: after))) ∧
    ∀ m : Machine, m.tape = t →
      (∀ i s, strokes[i]? = some s → m.program[m.pc + i]? = some s.instruction.toByte) →
      ∃ m', Machine.Runs strokes.length m m' ∧ m'.tape = t.performAll strokes := by
  refine ⟨t.size_performAll strokes, ?_, t.cell_performAll strokes, ?_, ?_, ?_, ?_⟩
  · rw [pointer_performAll, place, shift, Int.add_sub_assoc]
  · intro c unvisited
    have none_added := net_eq_zero_of_unvisited unvisited
    have small : (t.cell c).toNat < 256 := (t.cell c).toNat_lt
    have same := t.cell_performAll strokes c
    rw [none_added] at same
    apply UInt8.toNat_inj.mp
    omega
  · rintro before s after rfl
    exact t.performAll_opposite before s after
  · rintro before s round after rfl change back
    exact t.performAll_round before after change back
  · rintro m rfl here
    obtain ⟨m', run, tape, _⟩ := Machine.runs_strokes here
    exact ⟨m', run, tape⟩

/-- On two cells two moves to the left lead back, so that the change before them may as well come after
them; and that is what a program of these four instructions does. -/
theorem strokes_are_modular_two_cells :
    (2 : Int) ∣ shift [.left, .increment, .left] ∧
    (blank 2 Nat.two_pos).performAll [.decrement, .left, .increment, .left] =
      (blank 2 Nat.two_pos).performAll [.left, .increment, .left, .decrement] ∧
    ∃ m m' : Machine, m.program = #[45, 60, 43, 60] ∧ m.tape = blank 2 Nat.two_pos ∧
      Machine.Runs 4 m m' ∧ m'.tape.cells = #[255, 1] := by
  have back : (2 : Int) ∣ shift [.left, .increment, .left] := by decide
  obtain ⟨_, _, _, _, _, round, machine⟩ :=
    strokes_are_modular (blank 2 Nat.two_pos) [.decrement, .left, .increment, .left]
  have loaded := machine
    ((Machine.ofSizes ⟨2, 1, 1, Nat.two_pos, Nat.one_pos, Nat.one_pos⟩).install
      [45, 60, 43, 60] #[]) rfl
  obtain ⟨m', run, tape⟩ := loaded <| by
    rintro (_ | _ | _ | _ | i) s found
    case succ.succ.succ.succ => exact absurd found nofun
    all_goals
      cases found
      rfl
  refine ⟨back, round [] .decrement [.left, .increment, .left] [] rfl rfl back, _, m', rfl, rfl, run,
    ?_⟩
  rw [tape]
  decide

end Tape

end TapeMachine
