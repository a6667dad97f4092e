import Mathlib.Data.List.Flatten
import TapeMachine.Listing
import TapeMachine.Proofs.Ideal
/-!
# Visits

A machine that is traced visits its instructions: each visit has a line, and after it the instruction is
executed or held up. Input and output instructions can be held up any number of times before they are
executed; for the ideal machine, which has all of its input and never too much output, this makes no
difference. The lines of the executed instructions are therefore those of an ideal run.
-/

set_option autoImplicit false
set_option relaxedAutoImplicit false

namespace TapeMachine

namespace Code

def line (k : Code) (c : Config) (byte : UInt8) : List UInt8 :=
  Listing.offsetColumn c.pc ++ (Listing.describe byte k.jumps c.pc).flatten ++ [9, 91] ++
    Text.decimal c.tape.pointer ++ [93, 61] ++ Text.decimal c.tape.read.toNat ++ [10]

def listed (k : Code) (c : Config) : List (List UInt8) :=
  match k.program[c.pc]? with
  | none => []
  | some byte => if Instruction.isInstruction byte then [k.line c byte] else []

/-- The lines of the next instructions that are executed, in order. -/
def lines (k : Code) : Nat → Config → List (List UInt8)
  | 0, _ => []
  | n + 1, c =>
    match k.next? c with
    | none => []
    | some c' => k.listed c ++ k.lines n c'

end Code

/-- A line of a trace, and whether the instruction has been executed after it was written. -/
structure Visit where
  line : List UInt8
  executed : Bool

def Visit.text (visits : List Visit) : List UInt8 := (visits.map Visit.line).flatten

/-- The visits of a machine that executes a number of instructions, where an input or an output
instruction may be held up any number of times before. -/
inductive Code.Visits (k : Code) : Nat → Config → List Visit → Config → Prop
  | stop (c : Config) : Visits k 0 c [] c
  | executed {n : Nat} {c c' d : Config} {visits : List Visit} (step : k.next? c = some c')
      (rest : Visits k n c' visits d) :
      Visits k (n + 1) c ((k.listed c).map (⟨·, true⟩) ++ visits) d
  | held {n : Nat} {c d : Config} {visits : List Visit} {byte : UInt8}
      (fetched : k.program[c.pc]? = some byte)
      (waits : byte = Instruction.input.toByte ∨ byte = Instruction.output.toByte)
      (rest : Visits k n c visits d) :
      Visits k n c (⟨k.line c byte, false⟩ :: visits) d

theorem Code.next?_before {k : Code} {c d : Config} {before : List UInt8}
    (step : k.next? (c.within before []) = some d) :
    ∃ c', k.next? c = some c' ∧ c'.within before [] = d := by
  have once : k.advance 1 (c.within before []) = some d := by
    rw [advance, step]
    rfl
  rw [advance_before, Option.map_eq_some_iff] at once
  obtain ⟨c', first, same⟩ := once
  refine ⟨c', ?_, same⟩
  rw [advance] at first
  cases now : k.next? c with
  | none => simp [now] at first
  | some c₁ =>
      rw [now] at first
      exact first

section Visits

variable {k : Code} {m n : Nat} {c d e : Config} {visits others : List Visit}

theorem Visit.text_append (visits others : List Visit) :
    Visit.text (visits ++ others) = Visit.text visits ++ Visit.text others := by
  rw [Visit.text, List.map_append, List.flatten_append]
  rfl

namespace Code

theorem Visits.trans (first : k.Visits m c visits d) (second : k.Visits n d others e) :
    k.Visits (m + n) c (visits ++ others) e := by
  induction first with
  | stop c =>
      rw [Nat.zero_add]
      exact second
  | executed step _ ih =>
      rw [List.append_assoc, Nat.add_right_comm]
      exact .executed step (ih second)
  | held fetched waits _ ih => exact .held fetched waits (ih second)

theorem Visits.advance (visited : k.Visits n c visits d) : k.advance n c = some d := by
  induction visited with
  | stop c => rfl
  | executed step _ ih =>
      rw [Code.advance, step]
      exact ih
  | held _ _ _ ih => exact ih

theorem Visits.within (before after : List UInt8) (visited : k.Visits n c visits d) :
    k.Visits n (c.within before after) visits (d.within before after) := by
  induction visited with
  | stop c => exact .stop _
  | executed step _ ih => exact .executed (next?_within before after step) ih
  | held fetched waits _ ih => exact .held fetched waits ih

theorem Visits.lines_executed (visited : k.Visits n c visits d) :
    (visits.filter Visit.executed).map Visit.line = k.lines n c := by
  induction visited with
  | stop c => rfl
  | @executed n c c' d visits step _ ih =>
      have kept : ((k.listed c).map (⟨·, true⟩ : List UInt8 → Visit)).filter Visit.executed =
          (k.listed c).map (⟨·, true⟩) := by
        apply List.filter_eq_self.mpr
        intro visit member
        obtain ⟨line, -, rfl⟩ := List.mem_map.mp member
        rfl
      have same : ((k.listed c).map (⟨·, true⟩ : List UInt8 → Visit)).map Visit.line =
          k.listed c := by
        rw [List.map_map]
        exact List.map_id _
      rw [List.filter_append, List.map_append, ih, kept, same, lines, step]
  | held _ _ _ ih => exact ih

theorem Visits.line_ne_nil (visited : k.Visits n c visits d) :
    ∀ visit ∈ visits, visit.line ≠ [] := by
  induction visited with
  | stop c => exact fun _ member => (List.not_mem_nil member).elim
  | @executed n c c' d visits step _ ih =>
      intro visit member
      rcases List.mem_append.mp member with now | later
      · obtain ⟨line, listed, rfl⟩ := List.mem_map.mp now
        unfold Code.listed at listed
        split at listed
        · exact (List.not_mem_nil listed).elim
        · split at listed
          · rw [List.mem_singleton.mp listed]
            exact List.append_ne_nil_of_right_ne_nil _ (List.cons_ne_nil _ _)
          · exact (List.not_mem_nil listed).elim
      · exact ih visit later
  | held _ _ _ ih =>
      intro visit member
      rcases List.mem_cons.mp member with rfl | later
      · exact List.append_ne_nil_of_right_ne_nil _ (List.cons_ne_nil _ _)
      · exact ih visit later

end Code

private theorem Visit.length_text_filter (visits : List Visit) :
    (Visit.text (visits.filter Visit.executed)).length ≤ (Visit.text visits).length := by
  apply List.Sublist.length_le
  exact (List.filter_sublist.map Visit.line).flatten

theorem Visit.text_filter_iff (telling : ∀ visit ∈ visits, visit.line ≠ []) :
    Visit.text visits = Visit.text (visits.filter Visit.executed) ↔
      ∀ visit ∈ visits, visit.executed = true := by
  constructor
  · intro same
    induction visits with
    | nil => exact fun _ member => (List.not_mem_nil member).elim
    | cons first rest ih =>
        have later : ∀ visit ∈ rest, visit.line ≠ [] := fun visit member =>
          telling visit (List.mem_cons_of_mem first member)
        have front : Visit.text (first :: rest) = first.line ++ Visit.text rest := rfl
        cases done : first.executed with
        | true =>
            rw [List.filter_cons_of_pos done, front] at same
            have rest_same := ih later (List.append_cancel_left same)
            intro visit member
            rcases List.mem_cons.mp member with rfl | later
            · exact done
            · exact rest_same visit later
        | false =>
            have undone : ¬ first.executed = true := by simp [done]
            rw [List.filter_cons_of_neg undone, front] at same
            have shorter := Visit.length_text_filter rest
            have positive := List.length_pos_iff.mpr (telling first List.mem_cons_self)
            have lengths := congrArg List.length same
            rw [List.length_append] at lengths
            omega
  · intro all
    rw [List.filter_eq_self.mpr all]

end Visits

end TapeMachine
