import TapeMachine.Proofs.Focus
import TapeMachine.Samples
import TapeMachine.Text.Utf8
import Mathlib.Data.List.Induction
/-!
# The sorting program sorts

The program drops the beads of an abacus. Cell 0 stays 0. Every byte read becomes a column of two
cells, the number of rounds so far and the beads still to drop. A round takes one bead from every
column, and then removes the columns that have none left, printing their count, which is the byte
that was read; the columns left of a removed one move into its place. So the columns that remain
always stand side by side at the right, and the bytes are printed in the order in which their beads
run out.
-/

set_option autoImplicit false
set_option relaxedAutoImplicit false

namespace TapeMachine

namespace Sorting

open Block (line)
open Tape (focus before behind)

def clear (rest : Block) : Block := .loop (line [.decrement] .empty) rest

def carry (rest : Block) : Block :=
  .loop (line [.right, .right, .increment, .left, .left, .decrement] .empty) rest

/-- `[[>>+<<-]<]` -/
def shift (rest : Block) : Block := .loop (carry (line [.left] .empty)) rest

/-- `[.[-]<[[>>+<<-]<]>>]` -/
def emit (rest : Block) : Block :=
  .loop (line [.output] (clear (line [.left] (shift (line [.right, .right] .empty))))) rest

def seek (rest : Block) : Block := .loop (line [.right, .right] .empty) rest

/-- `>[>>]<[.[-]<[[>>+<<-]<]>>]>` -/
def remove : Block := line [.right] (seek (line [.left] (emit (line [.right] .empty))))

/-- `[-<+<]` -/
def pass (rest : Block) : Block :=
  .loop (line [.decrement, .left, .increment, .left] .empty) rest

def removal : Block := .loop remove (line [.left, .left] .empty)

/-- `[-<+<]>[>[>>]<[.[-]<[[>>+<<-]<]>>]>]<<` -/
def round : Block := pass (line [.right] removal)

/-- `[>>,]` -/
def load (rest : Block) : Block := .loop (line [.right, .right, .input] .empty) rest

def program : Block :=
  line [.right, .right, .input] (load (line [.left, .left] (.loop round .empty)))

private theorem text_program : program.text = Text.bytes Samples.sort := by
  decide +kernel

variable {rest : Block} {left right : List UInt8} {level : UInt8} {input output : List UInt8}
  {r : Result}

/-- The columns of bytes after as many rounds as the level. -/
def beads (level : UInt8) (xs : List UInt8) : List UInt8 := xs.flatMap fun x => [level, x - level]

@[simp]
theorem beads_nil (level : UInt8) : beads level [] = [] := rfl

@[simp]
theorem beads_cons (level x : UInt8) (xs : List UInt8) :
    beads level (x :: xs) = level :: (x - level) :: beads level xs := rfl

@[simp]
theorem beads_append (level : UInt8) (xs ys : List UInt8) :
    beads level (xs ++ ys) = beads level xs ++ beads level ys := by
  simp [beads]

private theorem sub_ne_zero {x : UInt8} (other : x ≠ level) : x - level ≠ 0 := by
  intro zero
  have same := UInt8.sub_add_cancel x level
  rw [zero, UInt8.zero_add] at same
  exact other same.symm

private theorem ne_zero_of_mem_beads {xs : List UInt8} {cell : UInt8} (nonzero : level ≠ 0)
    (absent : level ∉ xs) (member : cell ∈ beads level xs) : cell ≠ 0 := by
  simp only [beads, List.mem_flatMap, List.mem_cons, List.not_mem_nil, or_false] at member
  rcases member with ⟨x, here, rfl | rfl⟩
  · exact nonzero
  · refine sub_ne_zero fun same => ?_
    exact absent (same ▸ here)

private theorem countdown {p : UInt8 → Prop} (zero : p 0) (down : ∀ c, c ≠ 0 → p (c - 1) → p c)
    (c : UInt8) : p c := by
  induction size : c.toNat generalizing c with
  | zero =>
      have nothing : c = 0 := UInt8.toNat_inj.mp size
      rw [nothing]
      exact zero
  | succ n ih =>
      have nonzero : c ≠ 0 := by
        rintro rfl
        cases size
      have one : (1 : UInt8) ≤ c := by
        rw [UInt8.le_iff_toNat_le, size]
        exact Nat.le_add_left 1 n
      have smaller : (c - 1).toNat = n := by
        rw [UInt8.toNat_sub_of_le c 1 one, size]
        rfl
      exact down c nonzero (ih _ smaller)

private theorem clear_eval {current : UInt8}
    (later : rest.Eval ⟨focus left 0 right, input, output⟩ r) :
    (clear rest).Eval ⟨focus left current right, input, output⟩ r := by
  induction current using countdown with
  | zero => exact .skip (Tape.read_focus left 0 right) later
  | down c nonzero ih =>
      have once : Store.follow? ⟨focus left c right, input, output⟩ [.decrement] =
          some ⟨focus left (c - 1) right, input, output⟩ := by
        simp [Store.follow?, Action.effect?]
      exact .again (by simpa using nonzero) (.line once (.empty _)) ih

private theorem carry_eval {current between target : UInt8}
    (later : rest.Eval
      ⟨focus left 0 (between :: (target + current) :: right), input, output⟩ r) :
    (carry rest).Eval ⟨focus left current (between :: target :: right), input, output⟩ r := by
  induction current using countdown generalizing target with
  | zero =>
      rw [UInt8.add_zero] at later
      exact .skip (Tape.read_focus _ _ _) later
  | down c nonzero ih =>
      have once : Store.follow? ⟨focus left c (between :: target :: right), input, output⟩
          [.right, .right, .increment, .left, .left, .decrement] =
          some ⟨focus left (c - 1) (between :: (target + 1) :: right), input, output⟩ := by
        simp [Store.follow?, Action.effect?]
      have total : target + 1 + (c - 1) = target + c := by
        rw [UInt8.add_assoc, UInt8.add_comm 1, UInt8.sub_add_cancel]
      refine .again (by simpa using nonzero) (.line once (.empty _)) (ih ?_)
      rw [total]
      exact later

private theorem shift_eval {cells : List UInt8} (nonzero : ∀ cell ∈ cells, cell ≠ 0)
    (later : rest.Eval ⟨focus left 0 (0 :: 0 :: (cells.reverse ++ right)), input, output⟩ r) :
    (shift rest).Eval ⟨before (cells ++ 0 :: left) (0 :: 0 :: right), input, output⟩ r := by
  induction cells generalizing right with
  | nil => exact .skip (Tape.read_focus _ _ _) later
  | cons c cells ih =>
      rw [List.reverse_cons, List.append_assoc] at later
      have onward := ih (fun cell member => nonzero cell (List.mem_cons_of_mem c member)) later
      have here : c ≠ 0 := nonzero c List.mem_cons_self
      have back : Store.follow? ⟨focus (cells ++ 0 :: left) 0 (0 :: c :: right), input, output⟩
          [.left] = some ⟨before (cells ++ 0 :: left) (0 :: 0 :: c :: right), input, output⟩ := by
        simp [Store.follow?, Action.effect?, Tape.moveLeft_focus]
      refine .again (by simpa using here) (carry_eval ?_) onward
      rw [UInt8.zero_add]
      exact .line back (.empty _)

private theorem emit_eval {xs : List UInt8} (nonzero : level ≠ 0) (absent : level ∉ xs)
    (later : rest.Eval
      ⟨focus (0 :: 0 :: left) 0 (beads level xs ++ right), input, output ++ [level]⟩ r) :
    (emit rest).Eval
      ⟨focus ((beads level xs).reverse ++ 0 :: left) level (0 :: right), input, output⟩ r := by
  have printed : Store.follow?
      ⟨focus ((beads level xs).reverse ++ 0 :: left) level (0 :: right), input, output⟩ [.output] =
      some ⟨focus ((beads level xs).reverse ++ 0 :: left) level (0 :: right), input,
        output ++ [level]⟩ := by
    simp [Store.follow?, Action.effect?]
  have back : Store.follow?
      ⟨focus ((beads level xs).reverse ++ 0 :: left) 0 (0 :: right), input, output ++ [level]⟩
      [.left] = some ⟨before ((beads level xs).reverse ++ 0 :: left) (0 :: 0 :: right), input,
        output ++ [level]⟩ := by
    simp [Store.follow?, Action.effect?, Tape.moveLeft_focus]
  have forth : Store.follow?
      ⟨focus left 0 (0 :: 0 :: (beads level xs ++ right)), input, output ++ [level]⟩
      [.right, .right] =
      some ⟨focus (0 :: 0 :: left) 0 (beads level xs ++ right), input, output ++ [level]⟩ := by
    simp [Store.follow?, Action.effect?]
  have cells : ∀ cell ∈ (beads level xs).reverse, cell ≠ 0 := by
    intro cell member
    exact ne_zero_of_mem_beads nonzero absent (List.mem_reverse.mp member)
  refine .again (by simpa using nonzero)
    (.line printed (clear_eval (.line back (shift_eval cells ?_)))) (.skip (by simp) later)
  rw [List.reverse_reverse]
  exact .line forth (.empty _)

private theorem seek_eval {xs : List UInt8} {counter : UInt8} (absent : level ∉ xs)
    (later : rest.Eval
      ⟨focus (counter :: ((beads level xs).reverse ++ left)) 0 right, input, output⟩ r) :
    (line [.right] (seek rest)).Eval
      ⟨behind left (beads level xs ++ counter :: 0 :: right), input, output⟩ r := by
  induction xs generalizing left with
  | nil =>
      have moved : Store.follow? ⟨focus left counter (0 :: right), input, output⟩ [.right] =
          some ⟨focus (counter :: left) 0 right, input, output⟩ := by
        simp [Store.follow?, Action.effect?]
      exact .line moved (.skip (by simp) later)
  | cons x xs ih =>
      simp only [List.mem_cons, not_or] at absent
      have later' : rest.Eval ⟨focus (counter :: ((beads level xs).reverse ++
          (x - level) :: level :: left)) 0 right, input, output⟩ r := by
        simpa using later
      have onward := ih absent.2 later'
      have moved : Store.follow?
          ⟨focus left level ((x - level) :: (beads level xs ++ counter :: 0 :: right)), input,
            output⟩ [.right] =
          some ⟨focus (level :: left) (x - level) (beads level xs ++ counter :: 0 :: right), input,
            output⟩ := by
        simp [Store.follow?, Action.effect?]
      have some_left : x - level ≠ 0 := sub_ne_zero (Ne.symm absent.1)
      have next : (focus (level :: left) (x - level)
          (beads level xs ++ counter :: 0 :: right)).moveRight =
          behind ((x - level) :: level :: left) (beads level xs ++ counter :: 0 :: right) :=
        Tape.moveRight_focus (by simp)
      refine .line moved (.again (by simpa using some_left) (.line rfl (.empty _)) ?_)
      simp only [next]
      exact (Block.eval_line_iff rfl).mp onward

private theorem remove_eval {kept others : List UInt8} (nonzero : level ≠ 0) (absent : level ∉ kept)
    (some_right : right ≠ []) :
    remove.Eval ⟨behind (0 :: left) (beads level (kept ++ level :: others) ++ right), input, output⟩
      (.done ⟨behind (0 :: 0 :: 0 :: left) (beads level (kept ++ others) ++ right), input,
        output ++ [level]⟩) := by
  have back : Store.follow?
      ⟨focus (level :: ((beads level kept).reverse ++ 0 :: left)) 0 (beads level others ++ right),
        input, output⟩ [.left] =
      some ⟨focus ((beads level kept).reverse ++ 0 :: left) level
        (0 :: (beads level others ++ right)), input, output⟩ := by
    simp [Store.follow?, Action.effect?]
  have forth : Store.follow?
      ⟨focus (0 :: 0 :: left) 0 (beads level kept ++ (beads level others ++ right)), input,
        output ++ [level]⟩ [.right] =
      some ⟨behind (0 :: 0 :: 0 :: left) (beads level (kept ++ others) ++ right), input,
        output ++ [level]⟩ := by
    simp [Store.follow?, Action.effect?, Tape.moveRight_focus, some_right]
  have columns : beads level (kept ++ level :: others) ++ right =
      beads level kept ++ level :: 0 :: (beads level others ++ right) := by
    simp
  rw [columns]
  exact seek_eval absent (.line back (emit_eval nonzero absent (.line forth (.empty _))))

private theorem remove_eval_of_absent {xs : List UInt8} (absent : level ∉ xs) :
    remove.Eval ⟨behind (0 :: left) (beads level xs ++ 0 :: 0 :: right), input, output⟩
      (.done ⟨focus (0 :: ((beads level xs).reverse ++ 0 :: left)) 0 right, input, output⟩) := by
  have back : Store.follow?
      ⟨focus (0 :: ((beads level xs).reverse ++ 0 :: left)) 0 right, input, output⟩ [.left] =
      some ⟨focus ((beads level xs).reverse ++ 0 :: left) 0 (0 :: right), input, output⟩ := by
    simp [Store.follow?, Action.effect?]
  have forth : Store.follow?
      ⟨focus ((beads level xs).reverse ++ 0 :: left) 0 (0 :: right), input, output⟩ [.right] =
      some ⟨focus (0 :: ((beads level xs).reverse ++ 0 :: left)) 0 right, input, output⟩ := by
    simp [Store.follow?, Action.effect?]
  exact seek_eval absent (.line back (.skip (by simp) (.line forth (.empty _))))

/-- The tape between two rounds: the cursor is on the beads of the last column, and on a 0 if there
is no column left. -/
inductive Ready (level : UInt8) : List UInt8 → Tape → Prop
  | done {tape : Tape} (zero : tape.read = 0) : Ready level [] tape
  | columns {xs left right : List UInt8} (some_left : xs ≠ []) :
      Ready level xs (before ((beads level xs).reverse ++ 0 :: left) (0 :: 0 :: right))

private theorem removal_eval_of_absent {xs : List UInt8} (nonzero : level ≠ 0) (absent : level ∉ xs)
    (room : xs = [] → ∃ cells, left = 0 :: cells) :
    ∃ tape, Ready level xs tape ∧
      removal.Eval ⟨behind (0 :: left) (beads level xs ++ 0 :: 0 :: right), input, output⟩
        (.done ⟨tape, input, output⟩) := by
  cases xs with
  | nil =>
      obtain ⟨cells, rfl⟩ := room rfl
      have back : Store.follow? ⟨focus (0 :: 0 :: cells) 0 (0 :: right), input, output⟩
          [.left, .left] = some ⟨focus cells 0 (0 :: 0 :: 0 :: right), input, output⟩ := by
        simp [Store.follow?, Action.effect?]
      exact ⟨_, .done (by simp), .skip (by simp) (.line back (.empty _))⟩
  | cons x xs =>
      have back : Store.follow?
          ⟨focus (0 :: ((beads level (x :: xs)).reverse ++ 0 :: left)) 0 right, input, output⟩
          [.left, .left] =
          some ⟨before ((beads level (x :: xs)).reverse ++ 0 :: left) (0 :: 0 :: right), input,
            output⟩ := by
        simp [Store.follow?, Action.effect?, Tape.moveLeft_focus]
      exact ⟨_, .columns (List.cons_ne_nil x xs), .again (by simpa using nonzero)
        (remove_eval_of_absent absent) (.skip (by simp) (.line back (.empty _)))⟩

private theorem removal_eval (xs left right input output : List UInt8) (nonzero : level ≠ 0)
    (room : xs = [] → ∃ cells, left = 0 :: cells) :
    ∃ tape, Ready level (xs.filter (· ≠ level)) tape ∧
      removal.Eval ⟨behind (0 :: left) (beads level xs ++ 0 :: 0 :: right), input, output⟩
        (.done ⟨tape, input, output ++ List.replicate (xs.count level) level⟩) := by
  -- On the number of columns, of which the loop removes one each time.
  induction size : xs.length using Nat.strongRecOn generalizing xs left output with
  | _ n ih =>
      by_cases here : level ∈ xs
      · obtain ⟨kept, others, rfl, absent⟩ := List.eq_append_cons_of_mem here
        have fewer : (kept ++ others).length < n := by
          simp only [List.length_append, List.length_cons] at size ⊢
          omega
        obtain ⟨tape, ready, onward⟩ :=
          ih _ fewer (kept ++ others) (0 :: 0 :: left) (output ++ [level]) (fun _ => ⟨_, rfl⟩) rfl
        have same : (kept ++ level :: others).filter (· ≠ level) =
            (kept ++ others).filter (· ≠ level) := by simp
        have one_more : List.replicate ((kept ++ level :: others).count level) level =
            level :: List.replicate ((kept ++ others).count level) level := by
          simp [List.replicate_succ, ← Nat.add_assoc]
        rw [List.append_assoc, List.singleton_append, ← one_more] at onward
        rw [same]
        refine ⟨tape, ready, .again ?_ (remove_eval nonzero absent (by simp)) onward⟩
        cases kept <;> simpa using nonzero
      · have all : xs.filter (· ≠ level) = xs := by
          rw [List.filter_eq_self]
          intro x member
          simpa using fun same : x = level => here (same ▸ member)
        have no_output : output ++ List.replicate (xs.count level) level = output := by
          simp [List.count_eq_zero_of_not_mem here]
        rw [all, no_output]
        exact removal_eval_of_absent nonzero here room

private theorem read_last_ne_zero {xs : List UInt8} (some_left : xs ≠ []) (absent : level ∉ xs) :
    (before ((beads level xs).reverse ++ 0 :: left) right).read ≠ 0 := by
  induction xs using List.reverseRecOn with
  | nil => exact absurd rfl some_left
  | append_singleton xs x =>
      simp only [List.mem_append, List.mem_singleton, not_or] at absent
      simpa using sub_ne_zero (Ne.symm absent.2)

private theorem pass_eval {xs : List UInt8} (absent : level ∉ xs)
    (later : rest.Eval ⟨focus left 0 (beads (level + 1) xs ++ right), input, output⟩ r) :
    (pass rest).Eval ⟨before ((beads level xs).reverse ++ 0 :: left) right, input, output⟩ r := by
  induction xs using List.reverseRecOn generalizing right with
  | nil => exact .skip (Tape.read_focus _ _ _) later
  | append_singleton xs x ih =>
      simp only [List.mem_append, List.mem_singleton, not_or] at absent
      have taken : x - level - 1 = x - (level + 1) := by grind
      have later' : rest.Eval ⟨focus left 0 (beads (level + 1) xs ++
          (level + 1) :: (x - (level + 1)) :: right), input, output⟩ r := by
        simpa using later
      have onward := ih absent.1 later'
      have column : before ((beads level (xs ++ [x])).reverse ++ 0 :: left) right =
          focus (level :: ((beads level xs).reverse ++ 0 :: left)) (x - level) right := by
        simp
      have once : Store.follow?
          ⟨focus (level :: ((beads level xs).reverse ++ 0 :: left)) (x - level) right, input, output⟩
          [.decrement, .left, .increment, .left] =
          some ⟨before ((beads level xs).reverse ++ 0 :: left)
            ((level + 1) :: (x - (level + 1)) :: right), input, output⟩ := by
        simp [Store.follow?, Action.effect?, Tape.moveLeft_focus, taken]
      have some_left : x - level ≠ 0 := sub_ne_zero (Ne.symm absent.2)
      rw [column]
      exact .again (by simpa using some_left) (.line once (.empty _)) onward

private theorem round_eval {xs : List UInt8} (left right input output : List UInt8)
    (some_left : xs ≠ []) (absent : level ∉ xs) (room : level + 1 ≠ 0) :
    ∃ tape, Ready (level + 1) (xs.filter (· ≠ level + 1)) tape ∧
      round.Eval
        ⟨before ((beads level xs).reverse ++ 0 :: left) (0 :: 0 :: right), input, output⟩
        (.done ⟨tape, input,
          output ++ List.replicate (xs.count (level + 1)) (level + 1)⟩) := by
  obtain ⟨tape, ready, removal⟩ := removal_eval xs left right input output room fun none_left =>
    absurd none_left some_left
  have forth : Store.follow? ⟨focus left 0 (beads (level + 1) xs ++ 0 :: 0 :: right), input, output⟩
      [.right] =
      some ⟨behind (0 :: left) (beads (level + 1) xs ++ 0 :: 0 :: right), input, output⟩ := by
    simp [Store.follow?, Action.effect?, Tape.moveRight_focus]
  exact ⟨tape, ready, pass_eval absent (.line forth removal)⟩

private theorem toNat_add_one {x : UInt8} (below : level < x) :
    (level + 1).toNat = level.toNat + 1 := by
  have bound := x.toNat_lt
  rw [UInt8.lt_iff_toNat_lt] at below
  rw [UInt8.toNat_add]
  exact Nat.mod_eq_of_lt (by simp; omega)

private theorem perm_replicate_append {xs sorted : List UInt8} {x : UInt8}
    (perm : sorted.Perm (xs.filter (· ≠ x))) :
    (List.replicate (xs.count x) x ++ sorted).Perm xs := by
  have split := List.filter_append_perm (fun y => decide (y = x)) xs
  rw [List.filter_eq] at split
  have others : xs.filter (fun y => !decide (y = x)) = xs.filter (· ≠ x) := by simp
  rw [others] at split
  exact (perm.append_left _).trans split

private theorem pairwise_replicate_append {sorted : List UInt8} {x : UInt8} (n : Nat)
    (ordered : sorted.Pairwise (· ≤ ·)) (least : ∀ y ∈ sorted, x ≤ y) :
    (List.replicate n x ++ sorted).Pairwise (· ≤ ·) := by
  rw [List.pairwise_append]
  refine ⟨List.pairwise_replicate.mpr (Or.inr (UInt8.le_refl x)), ordered, fun y here z later => ?_⟩
  rw [List.eq_of_mem_replicate here]
  exact least z later

theorem rounds_eval {xs : List UInt8} {tape : Tape} (input output : List UInt8)
    (ready : Ready level xs tape) (above : ∀ x ∈ xs, level < x) :
    ∃ tape' sorted, (Block.loop round .empty).Eval ⟨tape, input, output⟩
        (.done ⟨tape', input, output ++ sorted⟩) ∧
      sorted.Perm xs ∧ sorted.Pairwise (· ≤ ·) := by
  -- On the distance of the level from 255, which no column exceeds.
  induction distance : 255 - level.toNat using Nat.strongRecOn generalizing level xs tape output with
  | _ n ih =>
      cases ready with
      | done zero =>
          refine ⟨tape, [], .skip zero ?_, .refl _, .nil⟩
          rw [List.append_nil]
          exact .empty _
      | @columns _ left right some_left =>
          obtain ⟨x, member⟩ := List.exists_mem_of_ne_nil xs some_left
          have below := above x member
          have room : level + 1 ≠ 0 := by grind
          have absent : level ∉ xs := fun member => UInt8.lt_irrefl level (above level member)
          obtain ⟨tape, ready, once⟩ := round_eval left right input output some_left absent room
          have above' : ∀ y ∈ xs.filter (· ≠ level + 1), level + 1 < y := by
            intro y member
            obtain ⟨member, other⟩ := List.mem_filter.mp member
            have := above y member
            grind
          have closer : 255 - (level + 1).toNat < n := by
            have bound := x.toNat_lt
            rw [UInt8.lt_iff_toNat_lt] at below
            rw [toNat_add_one (above x member)]
            omega
          obtain ⟨tape', sorted, more, perm, ordered⟩ := ih _ closer _ ready above' rfl
          have least : ∀ y ∈ sorted, level + 1 ≤ y := fun y member =>
            UInt8.le_of_lt (above' y (perm.subset member))
          rw [List.append_assoc] at more
          exact ⟨tape', _, .again (read_last_ne_zero some_left absent) once more,
            perm_replicate_append perm, pairwise_replicate_append _ ordered least⟩

private theorem follow?_read (byte : UInt8) (input output : List UInt8) (cells : Nat)
    (left : List UInt8) (c : UInt8) :
    Store.follow? ⟨focus left c (List.replicate (cells + 2) 0), byte :: input, output⟩
      [.right, .right, .input] =
    some ⟨focus (0 :: c :: left) byte (List.replicate cells 0), input, output⟩ := by
  simp [Store.follow?, Action.effect?, List.replicate_succ]

private theorem load_eval {xs : List UInt8} {c : UInt8} {spare : Nat} (nonzero : ∀ x ∈ xs, x ≠ 0)
    (later : rest.Eval
      ⟨focus (0 :: ((beads 0 xs).reverse ++ c :: left)) 0 (List.replicate spare 0), [], output⟩ r) :
    (line [.right, .right, .input] (load rest)).Eval
      ⟨focus left c (List.replicate (2 * xs.length + spare + 2) 0), xs ++ [0], output⟩ r := by
  induction xs generalizing left c with
  | nil =>
      rw [List.length_nil, Nat.mul_zero, Nat.zero_add]
      exact .line (follow?_read 0 [] output spare left c) (.skip (by simp) later)
  | cons x xs ih =>
      simp only [List.mem_cons, forall_eq_or_imp] at nonzero
      have later' : rest.Eval ⟨focus (0 :: ((beads 0 xs).reverse ++ x :: 0 :: c :: left)) 0
          (List.replicate spare 0), [], output⟩ r := by
        simpa using later
      have onward := ih nonzero.2 later'
      have size : 2 * (x :: xs).length + spare = 2 * xs.length + spare + 2 := by
        rw [List.length_cons]
        omega
      obtain ⟨byte, input, next⟩ := List.exists_cons_of_ne_nil (List.concat_ne_nil 0 xs)
      rw [size, List.cons_append, next]
      rw [next] at onward
      have here := follow?_read byte input output (2 * xs.length + spare) (0 :: c :: left) x
      exact .line (follow?_read x _ _ _ left c) (.again (by simpa using nonzero.1)
        (.line here (.empty _)) ((Block.eval_line_iff here).mp onward))

theorem program_eval {xs : List UInt8} (spare : Nat) (nonzero : ∀ x ∈ xs, x ≠ 0) :
    ∃ tape sorted, program.Eval
        ⟨focus [] 0 (List.replicate (2 * xs.length + spare + 2) 0), xs ++ [0], []⟩
        (.done ⟨tape, [], sorted⟩) ∧
      sorted.Perm xs ∧ sorted.Pairwise (· ≤ ·) := by
  have back : Store.follow?
      ⟨focus (0 :: ((beads 0 xs).reverse ++ [0])) 0 (List.replicate spare 0), [], []⟩
      [.left, .left] =
      some ⟨before ((beads 0 xs).reverse ++ [0]) (0 :: 0 :: List.replicate spare 0), [], []⟩ := by
    simp [Store.follow?, Action.effect?, Tape.moveLeft_focus]
  have ready : Ready 0 xs
      (before ((beads 0 xs).reverse ++ [0]) (0 :: 0 :: List.replicate spare 0)) := by
    by_cases empty : xs = []
    · subst empty
      exact .done (by simp)
    · exact .columns empty
  have above : ∀ x ∈ xs, 0 < x := by
    intro x member
    have := nonzero x member
    grind
  obtain ⟨tape, sorted, rounds, perm, ordered⟩ := rounds_eval [] [] ready above
  exact ⟨tape, sorted, load_eval nonzero (.line back rounds), perm, ordered⟩

end Sorting

/-- Given any bytes other than 0 and then a 0 byte, on a tape with two cells for every byte and three
more, and with queues that hold the input and the output, the sorting program halts and has printed
the bytes in ascending order. -/
theorem Machine.sort_sorts {m : Machine} {xs : List UInt8} (nonzero : ∀ x ∈ xs, x ≠ 0)
    (cells : 2 * xs.length + 3 ≤ m.tape.size) (holds : (xs ++ [0]).length ≤ m.input.capacity)
    (prints : xs.length ≤ m.output.capacity) :
    ∃ loaded fed fuel out, m.prepare (Text.bytes Samples.sort) = .ok loaded ∧
      loaded.appendInput (xs ++ [0]) = .ok fed ∧ fed.run fuel = some out ∧ out.error = none ∧
      out.machine.isWaiting = false ∧ out.machine.state = .halted ∧
      out.machine.drainOutput.1.Perm xs ∧ out.machine.drainOutput.1.Pairwise (· ≤ ·) := by
  obtain ⟨spare, size⟩ : ∃ spare, m.tape.size = 2 * xs.length + spare + 2 + 1 :=
    ⟨m.tape.size - (2 * xs.length + 3), by omega⟩
  have blank : m.tape.reset =
      Tape.focus [] 0 (List.replicate (2 * xs.length + spare + 2) 0) := Tape.blank_eq_focus _ size
  obtain ⟨tape, sorted, eval, perm, ordered⟩ := Sorting.program_eval spare nonzero
  rw [← blank] at eval
  have fits : sorted.length ≤ m.output.capacity := perm.length_eq ▸ prints
  obtain ⟨loaded, fed, fuel, m', prepared, appended, ran, halted, _, _, printed⟩ :=
    exists_run_of_eval holds fits eval
  rw [Sorting.text_program] at prepared
  have drained : m'.drainOutput.1 = sorted := printed
  refine ⟨loaded, fed, fuel, _, prepared, appended, ran, rfl, ?_, halted, ?_, ?_⟩
  · simp [isWaiting, halted]
  · rw [drained]
    exact perm
  · rw [drained]
    exact ordered

theorem Machine.sort_sorts_repeated : ∃ loaded fed fuel out,
    (ofSizes ⟨9, 4, 3, by decide, by decide, by decide⟩).prepare (Text.bytes Samples.sort) =
      .ok loaded ∧
    loaded.appendInput [2, 1, 2, 0] = .ok fed ∧ fed.run fuel = some out ∧ out.error = none ∧
    out.machine.drainOutput.1 = [1, 2, 2] := by
  have nonzero : ∀ x ∈ ([2, 1, 2] : List UInt8), x ≠ 0 := by simp
  obtain ⟨loaded, fed, fuel, out, prepared, appended, ran, fine, _, _, perm, ordered⟩ :=
    sort_sorts (m := ofSizes ⟨9, 4, 3, by decide, by decide, by decide⟩) nonzero (by decide)
      (by decide) (by decide)
  have known : ([2, 1, 2] : List UInt8).Perm [1, 2, 2] := by decide
  refine ⟨loaded, fed, fuel, out, prepared, appended, ran, fine, ?_⟩
  exact List.Perm.eq_of_pairwise (fun _ _ _ _ => UInt8.le_antisymm) ordered (by decide)
    (perm.trans known)

end TapeMachine
