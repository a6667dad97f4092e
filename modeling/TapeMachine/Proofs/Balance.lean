import TapeMachine.Proofs.Block
/-!
# Balanced texts

The depth of an offset is the number of brackets open there. A text is balanced if the depth never
falls below that of its first offset and comes back to it, so that questions about balanced parts of a
program are questions about depths: a bracket has at most one partner, and pairs do not cross.
-/

set_option autoImplicit false
set_option relaxedAutoImplicit false

namespace TapeMachine

/-- No bracket is closed before it has been opened, and in the end all are closed. -/
def Balanced (bytes : List UInt8) : Prop :=
  (∀ front, front <+: bytes →
    front.count Symbol.closing.toByte ≤ front.count Symbol.opening.toByte) ∧
  bytes.count Symbol.closing.toByte = bytes.count Symbol.opening.toByte

/-- Two brackets of a program with a balanced text between them. -/
structure Paired (program : List UInt8) (i j : Nat) : Prop where
  order : i < j
  opening : program[i]? = some Symbol.opening.toByte
  closing : program[j]? = some Symbol.closing.toByte
  balanced : Balanced (program.extract (i + 1) j)

/-- How many brackets are open at an offset; negative if more have been closed than opened. -/
def depth (program : List UInt8) (n : Nat) : Int :=
  ((program.take n).count Symbol.opening.toByte : Int) -
    (program.take n).count Symbol.closing.toByte

/-- The depth comes back to what it was at `i`, and is never below it on the way. -/
structure Level (program : List UInt8) (i j : Nat) : Prop where
  back : depth program j = depth program i
  above : ∀ k, i ≤ k → k ≤ j → depth program i ≤ depth program k

variable {program : List UInt8} {i j n : Nat}

theorem depth_zero (program : List UInt8) : depth program 0 = 0 := by
  simp [depth]

private theorem depth_succ {c : UInt8} (here : program[n]? = some c) :
    depth program (n + 1) = depth program n +
      ((if c = Symbol.opening.toByte then 1 else 0) -
        (if c = Symbol.closing.toByte then 1 else 0)) := by
  obtain ⟨inside, rfl⟩ := List.getElem?_eq_some_iff.mp here
  unfold depth
  rw [List.take_succ_eq_append_getElem inside]
  simp only [List.count_append, List.count_singleton, beq_iff_eq]
  split <;> split <;> omega

theorem depth_succ_of_opening (here : program[n]? = some Symbol.opening.toByte) :
    depth program (n + 1) = depth program n + 1 := by
  have step := depth_succ here
  have other : Symbol.opening.toByte ≠ Symbol.closing.toByte := by decide
  simpa [other] using step

theorem depth_succ_of_closing (here : program[n]? = some Symbol.closing.toByte) :
    depth program (n + 1) = depth program n - 1 := by
  have step := depth_succ here
  have other : Symbol.closing.toByte ≠ Symbol.opening.toByte := by decide
  simp only [other, if_false, if_true] at step
  omega

theorem depth_succ_of_other (not_opening : program[n]? ≠ some Symbol.opening.toByte)
    (not_closing : program[n]? ≠ some Symbol.closing.toByte) :
    depth program (n + 1) = depth program n := by
  cases here : program[n]? with
  | none =>
      have beyond := List.getElem?_eq_none_iff.mp here
      unfold depth
      rw [List.take_of_length_le beyond, List.take_of_length_le (Nat.le_succ_of_le beyond)]
  | some c =>
      have left : c ≠ Symbol.opening.toByte := fun same => not_opening (by rw [here, same])
      have right : c ≠ Symbol.closing.toByte := fun same => not_closing (by rw [here, same])
      have step := depth_succ here
      simpa [left, right] using step

private theorem depth_succ_of_action {a : Action} (here : program[n]? = some a.toByte) :
    depth program (n + 1) = depth program n := by
  have symbol := Symbol.ofByte_toByte (.action a)
  have no_other (s : Symbol) (differs : s ≠ .action a) : program[n]? ≠ some s.toByte := by
    intro same
    rw [here, Option.some.injEq] at same
    rw [Symbol.toByte, same, Symbol.ofByte_toByte] at symbol
    exact differs symbol
  apply depth_succ_of_other
  · apply no_other .opening
    intro same
    cases same
  · apply no_other .closing
    intro same
    cases same

private theorem count_take_extract (c : UInt8) (program : List UInt8) (order : i ≤ j) :
    (program.take j).count c = (program.take i).count c + (program.extract i j).count c := by
  obtain ⟨m, rfl⟩ := Nat.exists_eq_add_of_le order
  rw [List.take_add, List.count_append, List.extract_eq_take_drop, Nat.add_sub_cancel_left]

private theorem balanced_extract_iff (order : i ≤ j) (inside : j ≤ program.length) :
    Balanced (program.extract i j) ↔ Level program i j := by
  have opened (k : Nat) (from_i : i ≤ k) :=
    count_take_extract Symbol.opening.toByte program from_i
  have closed (k : Nat) (from_i : i ≤ k) :=
    count_take_extract Symbol.closing.toByte program from_i
  -- The fronts of a part of the program are the parts that end earlier.
  have fronts (k : Nat) (to_j : k ≤ j) :
      program.extract i k = (program.extract i j).take (k - i) := by
    rw [List.extract_eq_take_drop, List.extract_eq_take_drop, List.take_take]
    congr 1
    omega
  constructor
  · rintro ⟨never, total⟩
    refine ⟨?_, ?_⟩
    · have open_j := opened j order
      have closed_j := closed j order
      unfold depth
      omega
    · intro k from_i to_j
      have front : program.extract i k <+: program.extract i j := by
        rw [fronts k to_j]
        exact List.take_prefix _ _
      have short := never _ front
      have open_k := opened k from_i
      have closed_k := closed k from_i
      unfold depth
      omega
  · rintro ⟨back, above⟩
    refine ⟨?_, ?_⟩
    · intro front isFront
      have short := isFront.length_le
      rw [List.extract_eq_take_drop, List.length_take, List.length_drop] at short
      have same : front = program.extract i (i + front.length) := by
        rw [fronts _ (by omega), Nat.add_sub_cancel_left]
        exact List.prefix_iff_eq_take.mp isFront
      have open_k := opened (i + front.length) (Nat.le_add_right _ _)
      have closed_k := closed (i + front.length) (Nat.le_add_right _ _)
      have high := above (i + front.length) (Nat.le_add_right _ _) (by omega)
      rw [← same] at open_k closed_k
      unfold depth at high
      omega
    · have open_j := opened j order
      have closed_j := closed j order
      unfold depth at back
      omega

theorem balanced_iff_level : Balanced program ↔ Level program 0 program.length := by
  have whole : program.extract 0 program.length = program := by
    rw [List.extract_eq_take_drop, List.drop_zero, Nat.sub_zero, List.take_length]
  rw [← balanced_extract_iff (Nat.zero_le _) (Nat.le_refl _), whole]

namespace Level

theorem refl (program : List UInt8) (i : Nat) : Level program i i := by
  refine ⟨rfl, fun k from_i to_i => ?_⟩
  have same : k = i := Nat.le_antisymm to_i from_i
  exact Int.le_of_eq (congrArg (depth program) same.symm)

theorem trans {k : Nat} (first : Level program i j) (second : Level program j k) :
    Level program i k := by
  refine ⟨second.back.trans first.back, fun l from_i to_k => ?_⟩
  rcases Nat.le_total l j with before | after
  · exact first.above l from_i before
  · have high := second.above l after to_k
    rw [first.back] at high
    exact high

theorem action {a : Action} (here : program[n]? = some a.toByte) : Level program n (n + 1) := by
  have step := depth_succ_of_action here
  refine ⟨step, fun k from_n to_n => ?_⟩
  rcases (show k = n ∨ k = n + 1 by omega) with rfl | rfl
  · exact Int.le_refl _
  · exact Int.le_of_eq step.symm

theorem loop (order : i < j) (start : program[i]? = some Symbol.opening.toByte)
    (ends : program[j]? = some Symbol.closing.toByte) (inner : Level program (i + 1) j) :
    Level program i (j + 1) := by
  have up := depth_succ_of_opening start
  have down := depth_succ_of_closing ends
  have back := inner.back
  refine ⟨by omega, fun k from_i to_j => ?_⟩
  rcases (show k = i ∨ k = j + 1 ∨ (i + 1 ≤ k ∧ k ≤ j) by omega) with rfl | rfl | inside
  · exact Int.le_refl _
  · omega
  · have high := inner.above k inside.1 inside.2
    omega

end Level

namespace Paired

theorem close_lt (paired : Paired program i j) : j < program.length :=
  (List.getElem?_eq_some_iff.mp paired.closing).1

theorem level (paired : Paired program i j) : Level program (i + 1) j :=
  (balanced_extract_iff paired.order (Nat.le_of_lt paired.close_lt)).mp paired.balanced

theorem of_level (order : i < j) (start : program[i]? = some Symbol.opening.toByte)
    (ends : program[j]? = some Symbol.closing.toByte) (inner : Level program (i + 1) j) :
    Paired program i j := by
  have inside := (List.getElem?_eq_some_iff.mp ends).1
  exact ⟨order, start, ends, (balanced_extract_iff order (Nat.le_of_lt inside)).mpr inner⟩

private theorem depth_start (paired : Paired program i j) :
    depth program (i + 1) = depth program i + 1 := depth_succ_of_opening paired.opening

theorem depth_end (paired : Paired program i j) : depth program (j + 1) = depth program i := by
  have up := paired.depth_start
  have down := depth_succ_of_closing paired.closing
  have back := paired.level.back
  omega

theorem depth_lt (paired : Paired program i j) {k : Nat} (after : i < k) (before : k ≤ j) :
    depth program i < depth program k := by
  have up := paired.depth_start
  have high := paired.level.above k after before
  omega

variable {i' j' : Nat}

theorem close_lt_of_inside (outer : Paired program i j) (inner : Paired program i' j')
    (after : i < i') (before : i' < j) : j' < j := by
  have low := outer.depth_end
  have high := outer.depth_lt after (Nat.le_of_lt before)
  rcases Nat.lt_or_ge j' j with inside | outside
  · exact inside
  · -- Otherwise the outer bracket would be closed where the inner one is open, or together with it.
    exfalso
    rcases Nat.eq_or_lt_of_le outside with rfl | across
    · have same := inner.depth_end
      omega
    · have inner_high := inner.depth_lt (k := j + 1) (by omega) across
      omega

theorem close_unique (first : Paired program i j) (second : Paired program i j') : j = j' := by
  have low := first.depth_end
  have low' := second.depth_end
  rcases Nat.lt_trichotomy j j' with before | same | after
  · have high := second.depth_lt (k := j + 1) (Nat.lt_succ_of_lt first.order) before
    omega
  · exact same
  · have high := first.depth_lt (k := j' + 1) (Nat.lt_succ_of_lt second.order) after
    omega

theorem open_unique (first : Paired program i j) (second : Paired program i' j) : i = i' := by
  rcases Nat.lt_trichotomy i i' with before | same | after
  · exact absurd (first.close_lt_of_inside second before second.order) (Nat.lt_irrefl j)
  · exact same
  · exact absurd (second.close_lt_of_inside first after first.order) (Nat.lt_irrefl j)

theorem open_gt_of_inside (outer : Paired program i j) (inner : Paired program i' j')
    (after : i < j') (before : j' < j) : i < i' := by
  rcases Nat.lt_trichotomy i i' with inside | same | outside
  · exact inside
  · subst same
    exact absurd (outer.close_unique inner) (Nat.ne_of_gt before)
  · have crossed := inner.close_lt_of_inside outer outside after
    omega

end Paired

end TapeMachine
