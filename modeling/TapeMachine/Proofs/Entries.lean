import TapeMachine.Listing
import TapeMachine.Proofs.Decimals
/-!
# Lines of listings

An entry is what one line of a listing says. Numbers, names and the marks between them are made of
different bytes, so an entry can be read off the front of a text that starts with its line, and a
listing of any length is read back line by line.
-/

set_option autoImplicit false
set_option relaxedAutoImplicit false

namespace TapeMachine.Listing

open Text (number?)

/-- An instruction, its offset and, for a bracket, the offset of its partner. -/
structure Entry where
  offset : Nat
  instruction : Instruction
  partner : Option Nat
  deriving DecidableEq, Repr

def Entry.line (e : Entry) : List UInt8 :=
  let named := offsetColumn e.offset ++ Text.bytes e.instruction.mnemonic
  match e.partner with
  | some other => named ++ 32 :: Text.decimal other ++ [10]
  | none => named ++ [10]

def isLetter (c : UInt8) : Bool := 97 ≤ c && c ≤ 122

def named? (name : List UInt8) : Option Instruction :=
  [.increment, .decrement, .right, .left, .loopStart, .loopEnd, .input, .output].find?
    fun i => Text.bytes i.mnemonic == name

/-- Reads a line off the front of a text and answers what follows it. -/
def Entry.read? (text : List UInt8) : Option (Entry × List UInt8) :=
  match number? (text.dropWhile (· == 32)) with
  | some (offset, 9 :: rest) =>
    match named? (rest.takeWhile isLetter), rest.dropWhile isLetter with
    | some i, 10 :: rest => some (⟨offset, i, none⟩, rest)
    | some i, 32 :: rest =>
      match number? rest with
      | some (other, 10 :: rest) => some (⟨offset, i, some other⟩, rest)
      | _ => none
    | _, _ => none
  | _ => none

def readEntries? (text : List UInt8) : Option (List Entry) :=
  if text = [] then some []
  else
    match Entry.read? text with
    | some (e, rest) =>
      if rest.length < text.length then (readEntries? rest).map (e :: ·) else none
    | none => none
termination_by text.length

private theorem named?_mnemonic (i : Instruction) : named? (Text.bytes i.mnemonic) = some i := by
  cases i <;> decide +kernel

private theorem isLetter_of_mem_mnemonic {i : Instruction} {c : UInt8}
    (member : c ∈ Text.bytes i.mnemonic) :
    isLetter c = true := by
  have letters : ∀ c ∈ Text.bytes i.mnemonic, isLetter c = true := by
    cases i <;> decide +kernel
  exact letters c member

private theorem number?_offsetColumn_append (offset : Nat) (rest : List UInt8) :
    number? ((offsetColumn offset ++ rest).dropWhile (· == 32)) = some (offset, 9 :: rest) := by
  have blanks : ∀ c ∈ 32 :: List.replicate (9 - (Text.decimal offset).length) (32 : UInt8),
      (c == 32) = true := by
    intro c member
    rcases List.mem_cons.mp member with rfl | inside
    · rfl
    · rw [List.eq_of_mem_replicate inside]
      rfl
  have digits : ∀ c ∈ (Text.decimal offset ++ 9 :: rest).head?, (c == 32) = false := by
    intro c first
    rw [List.head?_append_of_ne_nil _ (Text.decimal_ne_nil offset)] at first
    have digit := Text.isDigit_of_mem_decimal (List.mem_of_mem_head? first)
    apply Bool.eq_false_iff.mpr
    intro blank
    rw [eq_of_beq blank] at digit
    exact absurd digit (by decide)
  have column : offsetColumn offset ++ rest =
      (32 :: List.replicate (9 - (Text.decimal offset).length) 32) ++
        (Text.decimal offset ++ 9 :: rest) := by
    simp [offsetColumn, Text.alignRight]
  rw [column, (Text.cut_append blanks digits).2]
  exact Text.number?_decimal_append offset (Text.ends_at rfl rest)

theorem Entry.read?_line_append (e : Entry) (rest : List UInt8) :
    Entry.read? (e.line ++ rest) = some (e, rest) := by
  obtain ⟨offset, i, partner⟩ := e
  have letters : ∀ c ∈ Text.bytes i.mnemonic, isLetter c = true := fun c => isLetter_of_mem_mnemonic
  cases partner with
  | none =>
      have line : (Entry.mk offset i none).line ++ rest =
          offsetColumn offset ++ (Text.bytes i.mnemonic ++ 10 :: rest) := by
        simp [Entry.line]
      obtain ⟨name, left⟩ := Text.cut_append letters (Text.ends_at (c := 10) rfl rest)
      simp only [line, Entry.read?, number?_offsetColumn_append, name, left, named?_mnemonic]
  | some other =>
      have line : (Entry.mk offset i (some other)).line ++ rest =
          offsetColumn offset ++
            (Text.bytes i.mnemonic ++ 32 :: (Text.decimal other ++ 10 :: rest)) := by
        simp [Entry.line]
      obtain ⟨name, left⟩ :=
        Text.cut_append letters (Text.ends_at (c := 32) rfl (Text.decimal other ++ 10 :: rest))
      have number : number? (Text.decimal other ++ 10 :: rest) = some (other, 10 :: rest) :=
        Text.number?_decimal_append other (Text.ends_at rfl rest)
      simp only [line, Entry.read?, number?_offsetColumn_append, name, left, named?_mnemonic, number]

theorem readEntries?_lines (entries : List Entry) :
    readEntries? (entries.flatMap Entry.line) = some entries := by
  induction entries with
  | nil => simp [readEntries?]
  | cons e rest ih =>
      have some_byte : e.line ≠ [] := by
        unfold Entry.line offsetColumn
        split <;> simp
      have shorter : (rest.flatMap Entry.line).length <
          (e.line ++ rest.flatMap Entry.line).length := by
        have positive := List.length_pos_of_ne_nil some_byte
        rw [List.length_append]
        omega
      rw [List.flatMap_cons, readEntries?, if_neg (List.append_ne_nil_of_left_ne_nil some_byte _),
        Entry.read?_line_append]
      simp only [shorter, if_true, ih, Option.map_some]

end TapeMachine.Listing
