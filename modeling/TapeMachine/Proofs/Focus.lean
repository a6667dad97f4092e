import TapeMachine.Proofs.Structured
/-!
# The tape around its cursor

A program that stays within the tape sees two lists: the cells to the left of the cursor, nearest
first, and the cells to the right. Reading, writing and moving are local to the cursor. A straight
line of actions is evaluated by following it.
-/

set_option autoImplicit false
set_option relaxedAutoImplicit false

namespace TapeMachine

namespace Tape

private theorem length_lt_size_focus (left : List UInt8) (current : UInt8) (right : List UInt8) :
    left.length < (left.reverse ++ current :: right).toArray.size := by
  simp

/-- The tape with its cursor on a cell, the cells left of it, nearest first, and right of it. -/
def focus (left : List UInt8) (current : UInt8) (right : List UInt8) : Tape :=
  ⟨(left.reverse ++ current :: right).toArray, left.length, length_lt_size_focus left current right⟩

def before (left right : List UInt8) : Tape := focus left.tail (left.headD 0) right

def behind (left right : List UInt8) : Tape := focus left (right.headD 0) right.tail

variable {left right : List UInt8} {current : UInt8}

@[simp]
theorem before_cons (c : UInt8) (left right : List UInt8) :
    before (c :: left) right = focus left c right := rfl

@[simp]
theorem behind_cons (left : List UInt8) (c : UInt8) (right : List UInt8) :
    behind left (c :: right) = focus left c right := rfl

theorem blank_eq_focus {size others : Nat} (positive : 0 < size) (one_more : size = others + 1) :
    blank size positive = focus [] 0 (List.replicate others 0) := by
  subst one_more
  simp [blank, focus, ← List.toArray_replicate, List.replicate_succ]

@[simp]
theorem read_focus (left : List UInt8) (current : UInt8) (right : List UInt8) :
    (focus left current right).read = current := by
  simp [focus, read]

@[simp]
theorem write_focus (left : List UInt8) (current : UInt8) (right : List UInt8) (value : UInt8) :
    (focus left current right).write value = focus left value right := by
  simp [focus, write]

@[simp]
theorem increment_focus (left : List UInt8) (current : UInt8) (right : List UInt8) :
    (focus left current right).increment = focus left (current + 1) right := by
  simp [increment]

@[simp]
theorem decrement_focus (left : List UInt8) (current : UInt8) (right : List UInt8) :
    (focus left current right).decrement = focus left (current - 1) right := by
  simp [decrement]

@[simp]
theorem moveRight_focus_cons (left : List UInt8) (current next : UInt8) (right : List UInt8) :
    (focus left current (next :: right)).moveRight = focus (current :: left) next right := by
  have inside : (left.length + 1) % (left.length + (right.length + 1 + 1)) = left.length + 1 :=
    Nat.mod_eq_of_lt (by omega)
  simp [focus, moveRight, inside]

@[simp]
theorem moveLeft_focus_cons (previous : UInt8) (left : List UInt8) (current : UInt8)
    (right : List UInt8) :
    (focus (previous :: left) current right).moveLeft = focus left previous (current :: right) := by
  have inside : left.length % (left.length + (right.length + 1 + 1)) = left.length :=
    Nat.mod_eq_of_lt (by omega)
  simp [focus, moveLeft, inside]

theorem moveRight_focus (some_right : right ≠ []) :
    (focus left current right).moveRight = behind (current :: left) right := by
  obtain ⟨next, right, rfl⟩ := List.exists_cons_of_ne_nil some_right
  rw [moveRight_focus_cons, behind_cons]

theorem moveLeft_focus (some_left : left ≠ []) :
    (focus left current right).moveLeft = before left (current :: right) := by
  obtain ⟨previous, left, rfl⟩ := List.exists_cons_of_ne_nil some_left
  rw [moveLeft_focus_cons, before_cons]

end Tape

def Store.follow? (s : Store) : List Action → Option Store
  | [] => some s
  | a :: rest =>
    match a.effect? s with
    | none => none
    | some s' => s'.follow? rest

/-- A block that starts with a straight line of actions. -/
def Block.line : List Action → Block → Block
  | [], rest => rest
  | a :: actions, rest => .action a (line actions rest)

private theorem Block.eval_action_iff {a : Action} {rest : Block} {s s' : Store} {r : Result}
    (here : a.effect? s = some s') : (Block.action a rest).Eval s r ↔ rest.Eval s' r := by
  constructor
  · intro whole
    cases whole with
    | action here' later =>
        rw [here] at here'
        cases here'
        exact later
    | starved nothing =>
        rw [here] at nothing
        cases nothing
  · exact .action here

theorem Block.eval_line_iff {actions : List Action} {rest : Block} {s s' : Store} {r : Result}
    (here : s.follow? actions = some s') : (line actions rest).Eval s r ↔ rest.Eval s' r := by
  induction actions generalizing s with
  | nil =>
      cases here
      exact Iff.rfl
  | cons a actions ih =>
      rw [Store.follow?] at here
      cases first : a.effect? s with
      | none => simp [first] at here
      | some s₁ =>
          rw [first] at here
          exact (eval_action_iff first).trans (ih here)

theorem Block.Eval.line {actions : List Action} {rest : Block} {s s' : Store} {r : Result}
    (here : s.follow? actions = some s') (later : rest.Eval s' r) :
    (Block.line actions rest).Eval s r :=
  (eval_line_iff here).mpr later

end TapeMachine
