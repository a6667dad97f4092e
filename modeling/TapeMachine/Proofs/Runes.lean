import TapeMachine.Text.Utf8
/-!
# Runes and where they end

A rune of more than one byte has no ASCII byte in it. So a text that is cut before an ASCII byte has
the same runes in front of the cut as the whole text, and as many runes forward from its start as the
part in front has lead to the cut, whether the bytes are made of runes or not.
-/

set_option autoImplicit false
set_option relaxedAutoImplicit false

namespace TapeMachine.Text.Utf8

/-- The number of bytes of the first `n` runes of a byte string; `none` if it has fewer runes. -/
def width? : (n : Nat) → List UInt8 → Option Nat
  | 0, _ => some 0
  | _ + 1, [] => none
  | n + 1, c :: rest => (width? n (rest.drop (runeLength c rest - 1))).map (runeLength c rest + ·)

section Rune

variable {first b : UInt8} {rest : List UInt8} {code length n : Nat}

private theorem le_of_within {low high : UInt8} (above : 0x80 ≤ low)
    (inside : within low high b = true) : 0x80 ≤ b := by
  simp only [within, Bool.and_eq_true, decide_eq_true_eq] at inside
  exact UInt8.le_trans above inside.1

private theorem rune?_eq_some (known : rune? first rest = some (code, length)) :
    ∃ tail more, rest = tail ++ more ∧ length = tail.length + 1 ∧ (∀ b ∈ tail, 0x80 ≤ b) ∧
      ∀ other, rune? first (tail ++ other) = some (code, length) := by
  unfold rune? at known
  split at known
  case isTrue ascii =>
    cases known
    exact ⟨[], rest, rfl, rfl, nofun, fun other => by simp [rune?, ascii]⟩
  case isFalse wide =>
    split at known
    case isTrue two =>
      split at known
      case h_1 b more =>
        obtain ⟨tail, same⟩ := Option.ite_none_right_eq_some.mp known
        cases same
        refine ⟨[b], more, rfl, rfl, ?_, fun other => ?_⟩
        · simpa using le_of_within (by decide) tail
        · simp [rune?, wide, two, tail]
      case h_2 => cases known
    case isFalse not_two =>
      split at known
      case isTrue three =>
        split at known
        case h_1 b c more =>
          obtain ⟨tails, same⟩ := Option.ite_none_right_eq_some.mp known
          cases same
          refine ⟨[b, c], more, rfl, rfl, ?_, fun other => ?_⟩
          · rw [Bool.and_eq_true] at tails
            have low : (0x80 : UInt8) ≤ if first = 0xE0 then 0xA0 else 0x80 := by
              split <;> decide
            simpa using ⟨le_of_within low tails.1, le_of_within (by decide) tails.2⟩
          · simp [rune?, wide, not_two, three, tails]
        case h_2 => cases known
      case isFalse not_three =>
        split at known
        case isTrue four =>
          split at known
          case h_1 b c d more =>
            obtain ⟨tails, same⟩ := Option.ite_none_right_eq_some.mp known
            cases same
            refine ⟨[b, c, d], more, rfl, rfl, ?_, fun other => ?_⟩
            · rw [Bool.and_eq_true, Bool.and_eq_true] at tails
              have low : (0x80 : UInt8) ≤ if first = 0xF0 then 0x90 else 0x80 := by
                split <;> decide
              simpa using ⟨le_of_within low tails.1.1,
                le_of_within (by decide) tails.1.2, le_of_within (by decide) tails.2⟩
            · simp [rune?, wide, not_two, not_three, four, tails]
          case h_2 => cases known
        case isFalse => cases known

private theorem runeLength_pos (first : UInt8) (rest : List UInt8) : 0 < runeLength first rest := by
  unfold runeLength
  cases known : rune? first rest with
  | none => exact Nat.one_pos
  | some rune =>
      obtain ⟨code, length⟩ := rune
      obtain ⟨tail, _, _, rfl, _⟩ := rune?_eq_some known
      exact Nat.succ_pos _

private theorem runeLength_of_ascii (found : rest[n]? = some b) (ascii : b < 0x80) :
    runeLength first rest ≤ n + 1 ∧ runeLength first (rest.take n) = runeLength first rest := by
  unfold runeLength
  cases known : rune? first rest with
  | none =>
      refine ⟨Nat.succ_pos n, ?_⟩
      cases cut : rune? first (rest.take n) with
      | none => rfl
      | some rune =>
          obtain ⟨code, length⟩ := rune
          obtain ⟨tail, more, front, _, _, whatever⟩ := rune?_eq_some cut
          have whole := whatever (more ++ rest.drop n)
          rw [← List.append_assoc, ← front, List.take_append_drop, known] at whole
          cases whole
  | some rune =>
      obtain ⟨code, length⟩ := rune
      obtain ⟨tail, more, rfl, rfl, wide, whatever⟩ := rune?_eq_some known
      have before : tail.length ≤ n := by
        rcases Nat.lt_or_ge n tail.length with inside | outside
        · rw [List.getElem?_append_left inside] at found
          exact absurd ascii (UInt8.not_lt.mpr (wide b (List.mem_of_getElem? found)))
        · exact outside
      refine ⟨Nat.succ_le_succ before, ?_⟩
      rw [List.take_append, List.take_of_length_le before, whatever]

end Rune

/-! ## Going forward by runes -/

section Width

variable {s : List UInt8} {b : UInt8} {n n' k k' : Nat}

theorem width?_runeCount_take (found : s[k]? = some b) (ascii : b < 0x80) :
    width? (runeCount (s.take k)) s = some k := by
  induction k using Nat.strongRecOn generalizing s with
  | _ k ih =>
      cases k with
      | zero => rw [List.take_zero, runeCount_nil, width?]
      | succ k =>
          obtain _ | ⟨c, rest⟩ := s
          · cases found
          · rw [List.getElem?_cons_succ] at found
            obtain ⟨short, same⟩ := @runeLength_of_ascii c b rest k found ascii
            have positive := runeLength_pos c rest
            rw [List.take_succ_cons, runeCount_cons, same, List.drop_take, width?]
            generalize runeLength c rest = length at short positive
            have later : (rest.drop (length - 1))[k - (length - 1)]? = some b := by
              rw [List.getElem?_drop, Nat.add_sub_cancel' (by omega)]
              exact found
            rw [ih (k - (length - 1)) (by omega) later, Option.map_some, Option.some.injEq]
            omega

theorem width?_le (fewer : n' ≤ n) (wide : width? n s = some k) (narrow : width? n' s = some k') :
    k' ≤ k := by
  induction n generalizing s n' k k' with
  | zero =>
      obtain rfl := Nat.le_zero.mp fewer
      exact Nat.le_of_eq (Option.some.inj (narrow.symm.trans wide))
  | succ n ih =>
      cases n' with
      | zero =>
          cases narrow
          exact Nat.zero_le k
      | succ n' =>
          cases s with
          | nil => cases wide
          | cons c rest =>
              rw [width?, Option.map_eq_some_iff] at wide narrow
              obtain ⟨w, wide, rfl⟩ := wide
              obtain ⟨w', narrow, rfl⟩ := narrow
              exact Nat.add_le_add_left (ih (Nat.le_of_succ_le_succ fewer) wide narrow) _

end Width

end TapeMachine.Text.Utf8
