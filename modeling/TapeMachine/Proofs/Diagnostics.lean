import TapeMachine.Assembly
import TapeMachine.Proofs.Lines
import TapeMachine.Proofs.Mismatches
import TapeMachine.Proofs.Runes
/-!
# Where diagnostics point

The place of an offset counts the runes of a line that has been cut there. A bracket is no part of a
rune, so the cut changes none of the runes before it, and going to the line of the place and forward to
its column leads to the bracket. Hence later brackets have later places.
-/

set_option autoImplicit false
set_option relaxedAutoImplicit false

namespace TapeMachine.Assembly

open Text (firstLine lastLine lineStart?)
open Text.Utf8 (runeCount width?)

/-- The offset that a line and a column lead to, both counted from 1: from the start of the line forward
over as many runes as there are columns before it. `none` if there are fewer lines or fewer runes. -/
def locate? (source : List UInt8) (line column : Nat) : Option Nat :=
  match lineStart? (line - 1) source with
  | none => none
  | some start => (width? (column - 1) (firstLine (source.drop start))).map (start + ·)

/-- A place comes before another one, by its line and then by its column. -/
def Position.Before (p p' : Position) : Prop :=
  p.line < p'.line ∨ p.line = p'.line ∧ p.column < p'.column

def Diagnostic.error (d : Diagnostic) : BracketError := ⟨d.mismatch, d.position.offset⟩

/-- The diagnostics of a source, which are there for the first ten brackets without partner. -/
structure Diagnoses (name : String) (source : List UInt8) (ds : List Diagnostic) : Prop where
  first : ∃ all : List BracketError, (∀ e, e ∈ all ↔ e.Unmatched source) ∧
    all.Pairwise (fun e e' => e.offset < e'.offset) ∧ ds.map Diagnostic.error = all.take 10 ∧
      ds.length = min 10 all.length
  offsets : ds.Pairwise fun d d' => d.position.offset < d'.position.offset
  places : ds.Pairwise fun d d' => d.position.Before d'.position
  named : ∀ d ∈ ds, d.position.name = name
  located : ∀ d ∈ ds, locate? source d.position.line d.position.column = some d.position.offset

section Position

variable {source : List UInt8} {offset offset' : Nat} {b b' : UInt8}

private theorem firstLine_append {last : List UInt8} (no_feed : 10 ∉ last) (other : b ≠ 10)
    (rest : List UInt8) : firstLine (last ++ b :: rest) = last ++ b :: firstLine rest := by
  have before : ∀ c ∈ last, decide (c ≠ 10) = true := by
    intro c member
    simp only [decide_eq_true_eq]
    rintro rfl
    exact no_feed member
  rw [firstLine, List.takeWhile_append_of_pos before, List.takeWhile_cons, if_pos (by simpa using other)]
  rfl

private theorem position_leads (found : source[offset]? = some b) (ascii : b < 0x80) (other : b ≠ 10)
    (name : String) :
    ∃ start, start ≤ offset ∧
      lineStart? ((position name source offset).line - 1) source = some start ∧
      width? ((position name source offset).column - 1) (firstLine (source.drop start)) =
        some (offset - start) := by
  obtain ⟨inside, here⟩ := List.getElem?_eq_some_iff.mp found
  obtain ⟨⟨front, before, starts⟩, no_feed⟩ := Text.fromLine_lastLine (source.take offset)
  have column : (position name source offset).column - 1 = runeCount (lastLine (source.take offset)) :=
    Nat.add_sub_cancel_left 1 _
  have line : (position name source offset).line - 1 = (source.take offset).count 10 :=
    Nat.add_sub_cancel_left 1 _
  generalize lastLine (source.take offset) = last at before no_feed column
  have length : front.length + last.length = offset := by
    rw [← List.length_append, ← before, List.length_take]
    omega
  have whole : source = front ++ (last ++ b :: source.drop (offset + 1)) := by
    rw [← List.append_assoc, ← before, ← here, List.getElem_cons_drop, List.take_append_drop]
  refine ⟨front.length, by omega, ?_, ?_⟩
  · rw [line, before, List.count_append, List.count_eq_zero.mpr no_feed, Nat.add_zero]
    conv => lhs; rw [whole]
    exact Text.lineStart?_count starts _
  · have behind : source.drop front.length = last ++ b :: source.drop (offset + 1) := by
      conv => lhs; rw [whole]
      exact List.drop_left
    have stands : (last ++ b :: firstLine (source.drop (offset + 1)))[last.length]? = some b := by
      simp
    have leads := Text.Utf8.width?_runeCount_take stands ascii
    rw [List.take_left] at leads
    rw [column, behind, firstLine_append no_feed other, leads, Option.some.injEq]
    omega

theorem locate?_position (found : source[offset]? = some b) (ascii : b < 0x80) (other : b ≠ 10)
    (name : String) :
    locate? source (position name source offset).line (position name source offset).column =
      some offset := by
  obtain ⟨start, before, line, column⟩ := position_leads found ascii other name
  rw [locate?, line]
  simp only [column, Option.map_some, Option.some.injEq]
  omega

theorem position_before (found : source[offset]? = some b) (ascii : b < 0x80) (other : b ≠ 10)
    (found' : source[offset']? = some b') (ascii' : b' < 0x80) (other' : b' ≠ 10)
    (order : offset < offset') (name : String) :
    (position name source offset).Before (position name source offset') := by
  obtain ⟨start, before, line, column⟩ := position_leads found ascii other name
  obtain ⟨start', before', line', column'⟩ := position_leads found' ascii' other' name
  have feeds : (position name source offset).line ≤ (position name source offset').line := by
    have front : source.take offset <+: source.take offset' :=
      List.take_prefix_take_left (Nat.le_of_lt order)
    exact Nat.add_le_add_left (front.sublist.count_le 10) 1
  rcases Nat.eq_or_lt_of_le feeds with same | earlier
  · refine Or.inr ⟨same, ?_⟩
    -- Both are reached from the same start, and the one further on over more runes.
    rw [same, line', Option.some.injEq] at line
    subst line
    rcases Nat.lt_or_ge (position name source offset).column (position name source offset').column with
      fewer | more
    · exact fewer
    · have back := Text.Utf8.width?_le (Nat.sub_le_sub_right more 1) column column'
      omega
  · exact Or.inl earlier

end Position

section Diagnose

variable {name : String} {source : List UInt8}

private theorem bracket_of_unmatched {e : BracketError} (unmatched : e.Unmatched source) :
    ∃ b, source[e.offset]? = some b ∧ b < 0x80 ∧ b ≠ 10 := by
  obtain ⟨mismatch, offset⟩ := e
  cases mismatch with
  | unopened => exact ⟨_, unmatched.1, by decide, by decide⟩
  | unclosed => exact ⟨_, unmatched.1, by decide, by decide⟩

private theorem diagnoses_diagnose (name : String) (source : List UInt8) :
    Diagnoses name source (diagnose name source) := by
  have firsts : mismatches source maxDiagnostics = (Brackets.matching source).mismatches.take 10 :=
    mismatches_of_pos (by decide) source
  have sorted := offsets_mismatches_matching source
  have known (e : BracketError) : e ∈ (Brackets.matching source).mismatches ↔ e.Unmatched source :=
    mem_mismatches_matching
  have bracket (e : BracketError) (member : e ∈ (Brackets.matching source).mismatches.take 10) :=
    bracket_of_unmatched ((known e).mp (List.mem_of_mem_take member))
  have order := List.Pairwise.sublist (List.take_sublist 10 _) sorted
  unfold diagnose
  rw [firsts]
  refine ⟨⟨_, known, sorted, ?_, ?_⟩, ?_, ?_, ?_, ?_⟩
  · rw [List.map_map]
    exact List.map_id _
  · rw [List.length_map, List.length_take]
  · rw [List.pairwise_map]
    exact order
  · rw [List.pairwise_map]
    refine order.imp_of_mem ?_
    intro e e' member member' earlier
    obtain ⟨b, found, ascii, other⟩ := bracket e member
    obtain ⟨b', found', ascii', other'⟩ := bracket e' member'
    exact position_before found ascii other found' ascii' other' earlier name
  · intro d member
    obtain ⟨e, _, rfl⟩ := List.mem_map.mp member
    rfl
  · intro d member
    obtain ⟨e, inside, rfl⟩ := List.mem_map.mp member
    obtain ⟨b, found, ascii, other⟩ := bracket e inside
    exact locate?_position found ascii other name

end Diagnose

/-- A source is a program if and only if it links, and then it is the program itself. Otherwise it is
refused with diagnostics for its first ten brackets without partner, or for all of them if there are
fewer, in the order of their offsets and places. Going to the line of a place and forward to its column,
each rune of the line being a column and each byte that is part of no rune as well, leads to the
bracket. -/
theorem diagnostics_lead_to_mismatches (name : String) (source : List UInt8) :
    (∀ program, assemble name (.ofBytes source) = .ok program ↔
      program = source ∧ ∃ jumps, link source = .ok jumps) ∧
    ∃ ds, Diagnoses name source ds ∧ ∀ e, assemble name (.ofBytes source) = .error e ↔
      e = .mismatched ds ∧ ∃ first, link source = .error first := by
  have read : (Source.ofBytes source).readAll = .ok source := rfl
  refine ⟨?_, diagnose name source, diagnoses_diagnose name source, ?_⟩
  · intro program
    unfold assemble
    simp only [read]
    cases link source with
    | error first => simp
    | ok jumps => simp [eq_comm]
  · intro e
    unfold assemble
    simp only [read]
    cases link source with
    | error first => simp [eq_comm]
    | ok jumps => simp

/-- A rune of two bytes and a byte that is part of none stand before the bracket on its line. -/
example : diagnose "loop" [91, 10, 195, 169, 255, 93, 93] = [⟨⟨"loop", 6, 2, 4⟩, .unopened⟩] ∧
    locate? [91, 10, 195, 169, 255, 93, 93] 2 4 = some 6 := by
  decide +kernel

end TapeMachine.Assembly
