import Mathlib.Data.List.Basic
import TapeMachine.Text.Decimal
/-!
# Reading decimal numbers back

The digits of a number are a text of digits that is not empty, and the number is their value. So a
number can be read off the front of a text, if no digit comes after it.
-/

set_option autoImplicit false
set_option relaxedAutoImplicit false

namespace TapeMachine.Text

def isDigit (c : UInt8) : Bool := 48 ≤ c && c ≤ 57

def valueOf (digits : List UInt8) : Nat :=
  digits.foldl (fun value digit => 10 * value + (digit.toNat - 48)) 0

/-- Reads a number off the front of a text and answers what follows it; `none` if the text does not
start with a digit. -/
def number? (text : List UInt8) : Option (Nat × List UInt8) :=
  match text.takeWhile isDigit with
  | [] => none
  | digits => some (valueOf digits, text.dropWhile isDigit)

theorem cut_append {kind : UInt8 → Bool} {front rest : List UInt8} (inside : ∀ c ∈ front, kind c = true)
    (ends : ∀ c ∈ rest.head?, kind c = false) :
    (front ++ rest).takeWhile kind = front ∧ (front ++ rest).dropWhile kind = rest := by
  rw [List.takeWhile_append_of_pos inside, List.dropWhile_append_of_pos inside]
  cases rest with
  | nil => simp
  | cons c rest => simp [ends c rfl]

theorem ends_at {kind : UInt8 → Bool} {c : UInt8} (other : kind c = false) (rest : List UInt8) :
    ∀ d ∈ (c :: rest).head?, kind d = false := by
  intro d first
  rw [List.head?_cons, Option.mem_some_iff] at first
  rw [← first]
  exact other

variable {n : Nat} {c : UInt8}

private theorem toNat_digit {digit : Char} (known : digit.isDigit = true) :
    48 ≤ digit.toNat ∧ digit.toNat ≤ 57 ∧ digit.toNat.toUInt8.toNat = digit.toNat := by
  simp only [Char.isDigit, Bool.and_eq_true, decide_eq_true_eq, ge_iff_le, UInt32.le_iff_toNat_le]
    at known
  obtain ⟨low, high⟩ := known
  have least : 48 ≤ digit.toNat := low
  have greatest : digit.toNat ≤ 57 := high
  refine ⟨least, greatest, ?_⟩
  rw [Nat.toUInt8_eq, UInt8.toNat_ofNat']
  omega

theorem isDigit_of_mem_decimal (member : c ∈ decimal n) : isDigit c = true := by
  obtain ⟨digit, inside, rfl⟩ := List.mem_map.mp member
  have known := Nat.isDigit_of_mem_toDigits (by decide) (by decide) inside
  obtain ⟨low, high, same⟩ := toNat_digit known
  simp only [isDigit, Bool.and_eq_true, decide_eq_true_eq, UInt8.le_iff_toNat_le, same]
  exact ⟨low, high⟩

theorem decimal_ne_nil (n : Nat) : decimal n ≠ [] := by
  intro empty
  exact Nat.toDigits_ne_nil (List.map_eq_nil_iff.mp empty)

private theorem valueOf_decimal (n : Nat) : valueOf (decimal n) = n := by
  have read := Nat.ofDigitChars_ten_toDigits (n := n)
  rw [Nat.ofDigitChars_eq_foldl] at read
  rw [valueOf, decimal, List.foldl_map]
  conv => rhs; rw [← read]
  refine List.foldl_ext _ _ _ fun value digit inside => ?_
  have known := Nat.isDigit_of_mem_toDigits (by decide) (by decide) inside
  rw [(toNat_digit known).2.2]
  rfl

theorem number?_decimal_append (n : Nat) {rest : List UInt8}
    (ends : ∀ c ∈ rest.head?, isDigit c = false) : number? (decimal n ++ rest) = some (n, rest) := by
  obtain ⟨digits, left⟩ := cut_append (fun c => isDigit_of_mem_decimal (n := n)) ends
  have some_digit := decimal_ne_nil n
  unfold number?
  rw [digits, left]
  split
  case h_1 no_digit => exact absurd no_digit some_digit
  case h_2 => rw [valueOf_decimal]

end TapeMachine.Text
