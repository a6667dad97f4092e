import TapeMachine.Text.Utf8
/-!
# Lines of a text

A text has one line more than it has line feeds. Before an offset there are as many line feeds as there
are lines before the one it is in, and that line starts behind the last of them.
-/

set_option autoImplicit false
set_option relaxedAutoImplicit false

namespace TapeMachine.Text

def firstLine (text : List UInt8) : List UInt8 := text.takeWhile (· ≠ 10)

def lastLine (text : List UInt8) : List UInt8 := (text.reverse.takeWhile (· ≠ 10)).reverse

/-- What is left of a text from the start of one of its lines on. -/
def FromLine (text rest : List UInt8) : Prop :=
  ∃ front, text = front ++ rest ∧ (front = [] ∨ front.getLast? = some 10)

/-- The offset at which a line starts, lines counted from 0. -/
def lineStart? : (line : Nat) → List UInt8 → Option Nat
  | 0, _ => some 0
  | _ + 1, [] => none
  | line + 1, c :: rest => (lineStart? (if c = 10 then line else line + 1) rest).map (· + 1)

section FromLine

variable {text rest last : List UInt8}

theorem FromLine.refl (text : List UInt8) : FromLine text text :=
  ⟨[], rfl, Or.inl rfl⟩

theorem FromLine.trans (first : FromLine text rest) (second : FromLine rest last) :
    FromLine text last := by
  obtain ⟨front, rfl, starts⟩ := first
  obtain ⟨front', rfl, starts'⟩ := second
  refine ⟨front ++ front', (List.append_assoc _ _ _).symm, ?_⟩
  rcases starts' with rfl | ends
  · rw [List.append_nil]
    exact starts
  · refine Or.inr ?_
    rw [List.getLast?_append, ends]
    rfl

end FromLine

theorem fromLine_lastLine (text : List UInt8) : FromLine text (lastLine text) ∧ 10 ∉ lastLine text := by
  refine ⟨⟨(text.reverse.dropWhile (· ≠ 10)).reverse, ?_, ?_⟩, ?_⟩
  · rw [lastLine, ← List.reverse_append, List.takeWhile_append_dropWhile, List.reverse_reverse]
  · rw [List.getLast?_reverse, List.reverse_eq_nil_iff]
    have stops := List.head?_dropWhile_not (fun b => decide (b ≠ 10)) text.reverse
    cases front : text.reverse.dropWhile (fun b => decide (b ≠ 10)) with
    | nil => exact Or.inl rfl
    | cons c behind =>
        rw [front] at stops
        exact Or.inr (by simpa using stops)
  · intro member
    rw [lastLine, List.mem_reverse] at member
    have kept := List.all_eq_true.mp List.all_takeWhile 10 member
    simp at kept

theorem lineStart?_count {front : List UInt8} (ends : front = [] ∨ front.getLast? = some 10)
    (rest : List UInt8) : lineStart? (front.count 10) (front ++ rest) = some front.length := by
  induction front with
  | nil => rw [List.count_nil, lineStart?, List.length_nil]
  | cons c more ih =>
      have last : (c :: more).getLast? = some 10 := ends.resolve_left (List.cons_ne_nil c more)
      have later : more = [] ∨ more.getLast? = some 10 := by
        cases more with
        | nil => exact Or.inl rfl
        | cons b others => exact Or.inr (by rwa [List.getLast?_cons_cons] at last)
      by_cases feed : c = 10
      · rw [feed, List.count_cons_self, List.cons_append, lineStart?, if_pos rfl, ih later]
        rfl
      · have others : more.getLast? = some 10 := by
          refine later.resolve_left ?_
          rintro rfl
          exact feed (by simpa using last)
        obtain ⟨n, lines⟩ : ∃ n, more.count 10 = n + 1 :=
          Nat.exists_eq_succ_of_ne_zero (Nat.pos_iff_ne_zero.mp
            (List.count_pos_iff.mpr (List.mem_of_getLast? others)))
        have behind := ih later
        rw [lines] at behind
        rw [List.count_cons_of_ne feed, lines, List.cons_append, lineStart?, if_neg feed, behind]
        rfl

end TapeMachine.Text
