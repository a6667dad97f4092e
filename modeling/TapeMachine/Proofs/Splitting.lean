import Mathlib.Data.List.TakeDrop
import TapeMachine.Feed.Token
import TapeMachine.Proofs.Lines
/-!
# Splitting input into lines and into bytes

The first line of the input is looked for in as many bytes as a scanner may hold, and its line feed has
to be among them. A complete line stays a token whatever follows it, and so does a byte.
-/

set_option autoImplicit false
set_option relaxedAutoImplicit false

namespace TapeMachine.Feed.Split

open Text (firstLine FromLine)

/-- Input that is cut where tokens are: anywhere between bytes, and between lines after a line feed. -/
def Whole (split : Split) (bytes : List UInt8) : Prop :=
  split = .bytes ∨ split = .lines ∧ (bytes = [] ∨ bytes.getLast? = some 10)

variable {split : Split} {limit : Nat} {bytes token rest : List UInt8}

private theorem lines_of_ne_nil (limit : Nat) (some_left : bytes ≠ []) :
    lines limit bytes = if limit ≤ (firstLine bytes).length then .tooLong
      else .token (dropReturn (firstLine bytes)) ((bytes.dropWhile (· ≠ 10)).drop 1) := by
  cases bytes with
  | nil => exact absurd rfl some_left
  | cons c others =>
      simp only [lines, List.span_eq_takeWhile_dropWhile, firstLine]
      rfl

theorem lines_eq_ended_iff : lines limit bytes = .ended ↔ bytes = [] := by
  constructor
  · intro ended
    by_contra some_left
    rw [lines_of_ne_nil limit some_left] at ended
    split at ended <;> cases ended
  · rintro rfl
    rfl

theorem bytes_eq_ended_iff : Split.bytes limit bytes = .ended ↔ bytes = [] := by
  cases bytes <;> simp [Split.bytes]

theorem lines_ne_failed (fault : Fault) : lines limit bytes ≠ .failed fault := by
  intro failed
  by_cases nothing : bytes = []
  · subst nothing
    cases failed
  · rw [lines_of_ne_nil limit nothing] at failed
    split at failed <;> cases failed

theorem lines_eq_tooLong_iff (positive : 0 < limit) :
    lines limit bytes = .tooLong ↔ limit ≤ (firstLine bytes).length := by
  by_cases nothing : bytes = []
  · subst nothing
    simp only [lines, firstLine, List.takeWhile_nil, List.length_nil, reduceCtorEq, false_iff]
    omega
  · rw [lines_of_ne_nil limit nothing]
    split
    case isTrue long => simp [long]
    case isFalse short => simp [short]

private theorem append_of_lines (next : lines limit bytes = .token token rest) :
    bytes = firstLine bytes ∧ rest = [] ∨ bytes = firstLine bytes ++ 10 :: rest := by
  have some_left : bytes ≠ [] := by
    rintro rfl
    cases next
  rw [lines_of_ne_nil limit some_left] at next
  split at next
  · cases next
  · cases next
    have parts : firstLine bytes ++ bytes.dropWhile (· ≠ 10) = bytes :=
      List.takeWhile_append_dropWhile
    cases after : bytes.dropWhile (fun c => decide (c ≠ 10)) with
    | nil =>
        rw [after, List.append_nil] at parts
        exact Or.inl ⟨parts.symm, rfl⟩
    | cons c others =>
        have stops := List.head?_dropWhile_not (fun c => decide (c ≠ 10)) bytes
        rw [after] at stops parts
        obtain rfl : c = 10 := by simpa using stops
        exact Or.inr parts.symm

theorem fromLine_of_lines (next : lines limit bytes = .token token rest) :
    rest = [] ∨ FromLine bytes rest := by
  rcases append_of_lines next with ⟨_, nothing⟩ | whole
  · exact Or.inl nothing
  · refine Or.inr ⟨firstLine bytes ++ [10], ?_, Or.inr List.getLast?_concat⟩
    rw [List.append_assoc]
    exact whole

theorem length_lt_of_lines (next : lines limit bytes = .token token rest) :
    rest.length < bytes.length := by
  rcases append_of_lines next with ⟨_, rfl⟩ | whole
  · have some_left : bytes ≠ [] := by
      rintro rfl
      cases next
    exact List.length_pos_iff.mpr some_left
  · rw [whole, List.length_append, List.length_cons]
    omega

private theorem lines_append {line : List UInt8} (limit : Nat) (after : List UInt8)
    (inside : (10 : UInt8) ∉ line) :
    lines limit (line ++ 10 :: after) =
      if limit ≤ line.length then .tooLong else .token (dropReturn line) after := by
  have before : ∀ c ∈ line, decide (c ≠ 10) = true := by
    intro c member
    simp only [decide_eq_true_eq]
    rintro rfl
    exact inside member
  have first : firstLine (line ++ 10 :: after) = line := by
    rw [firstLine, List.takeWhile_append_of_pos before]
    simp
  have behind : (line ++ 10 :: after).dropWhile (fun c => decide (c ≠ 10)) = 10 :: after := by
    rw [List.dropWhile_append_of_pos before]
    simp
  rw [lines_of_ne_nil limit (by simp), first, behind]
  rfl

theorem lines_of_whole (last : bytes = [] ∨ bytes.getLast? = some 10)
    (next : lines limit bytes = .token token rest) :
    ∃ line, bytes = line ++ 10 :: rest ∧ (10 : UInt8) ∉ line ∧ ¬ limit ≤ line.length ∧
      token = dropReturn line ∧ (rest = [] ∨ rest.getLast? = some 10) := by
  have last : bytes.getLast? = some 10 := by
    refine last.resolve_left ?_
    rintro rfl
    cases next
  obtain ⟨line, after, rfl, inside⟩ := List.eq_append_cons_of_mem (List.mem_of_getLast? last)
  rw [lines_append limit after inside] at next
  split at next
  · cases next
  case isFalse short =>
    cases next
    refine ⟨line, rfl, inside, short, rfl, ?_⟩
    cases rest with
    | nil => exact Or.inl rfl
    | cons c others =>
        refine Or.inr ?_
        rw [List.getLast?_append, List.getLast?_cons_cons] at last
        simpa using last

theorem Whole.of_ended (whole : split.Whole bytes) (ended : split limit bytes = .ended) :
    bytes = [] := by
  rcases whole with rfl | ⟨rfl, _⟩
  · exact bytes_eq_ended_iff.mp ended
  · exact lines_eq_ended_iff.mp ended

theorem Whole.append (whole : split.Whole bytes) (next : split limit bytes = .token token rest)
    (more : List UInt8) :
    split limit (bytes ++ more) = .token token (rest ++ more) ∧ split.Whole rest := by
  rcases whole with rfl | ⟨rfl, last⟩
  · cases bytes with
    | nil => cases next
    | cons c others =>
        cases next
        exact ⟨rfl, Or.inl rfl⟩
  · obtain ⟨line, rfl, inside, short, rfl, last⟩ := lines_of_whole last next
    refine ⟨?_, Or.inr ⟨rfl, last⟩⟩
    rw [List.append_assoc, List.cons_append, lines_append limit _ inside, if_neg short]

end TapeMachine.Feed.Split
