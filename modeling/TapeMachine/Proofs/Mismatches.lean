import TapeMachine.Proofs.Linking
/-!
# Mismatches

The mismatches of a program are its brackets without partner, in the order of their offsets. Reading
that ends as soon as there are enough of them has found the first ones, whether it ends at an unopened
bracket or among the unclosed ones. The error of a program that does not link is the first of all.
-/

set_option autoImplicit false
set_option relaxedAutoImplicit false

namespace TapeMachine

/-- A bracket of a program without partner, and what is wrong with it. -/
def BracketError.Unmatched (e : BracketError) (program : List UInt8) : Prop :=
  match e.mismatch with
  | .unopened => program[e.offset]? = some Symbol.closing.toByte ∧ ∀ i, ¬ Paired program i e.offset
  | .unclosed => program[e.offset]? = some Symbol.opening.toByte ∧ ∀ j, ¬ Paired program e.offset j

namespace Brackets

variable {limit : Int} {wanted : Nat}

private theorem enough_of_nonpos (unlimited : limit ≤ 0) (found : Nat) :
    enough limit found = false := by
  have nothing : ¬ 0 < limit := by omega
  simp [enough, nothing]

private theorem enough_iff (positive : 0 < wanted) (found : Nat) :
    enough (wanted : Int) found = true ↔ wanted ≤ found := by
  simp [enough, positive]

private theorem Matching.read_of_rejects {m : Matching} {c : UInt8} (refused : m.rejects c = true)
    (offset : Nat) : m.opened = [] ∧ m.read offset c = { m with unopened := offset :: m.unopened } := by
  simp only [rejects, Bool.and_eq_true, beq_iff_eq, List.isEmpty_iff] at refused
  obtain ⟨closes, none_open⟩ := refused
  refine ⟨none_open, ?_⟩
  simp only [read, closes, none_open]

private theorem Matching.unopened_read {m : Matching} {c : UInt8} (accepts : m.rejects c = false)
    (offset : Nat) : (m.read offset c).unopened = m.unopened := by
  unfold read
  split
  case h_1 => rfl
  case h_2 known =>
    split
    case h_1 none_open => simp [rejects, known, none_open] at accepts
    case h_2 => rfl
  case h_3 => rfl

private theorem Matching.unopened_suffix (m : Matching) (offset : Nat) (bytes : List UInt8) :
    m.unopened <:+ (m.readAll offset bytes).unopened := by
  induction bytes generalizing m offset with
  | nil => exact List.suffix_refl _
  | cons c rest ih =>
      refine List.IsSuffix.trans ?_ (ih (m.read offset c) (offset + 1))
      cases refused : m.rejects c with
      | true =>
          rw [(read_of_rejects refused offset).2]
          exact List.suffix_cons _ _
      | false =>
          exact ⟨[], (unopened_read refused offset).symm⟩

private theorem Matching.readUntil_of_nonpos (unlimited : limit ≤ 0) (m : Matching)
    (found offset : Nat)
    (bytes : List UInt8) : m.readUntil limit found offset bytes = m.readAll offset bytes := by
  induction bytes generalizing m found offset with
  | nil => rfl
  | cons c rest ih =>
      simp only [readUntil, readAll, enough_of_nonpos unlimited, Bool.false_eq_true, if_false, ih]
      split <;> rfl

private theorem Matching.readUntil_cases (positive : 0 < wanted) {m : Matching} {found : Nat}
    (count : m.unopened.length = found) (short : found < wanted) (offset : Nat) (bytes : List UInt8) :
    m.readUntil wanted found offset bytes = m.readAll offset bytes ∧
        (m.readAll offset bytes).unopened.length < wanted ∨
      (m.readUntil wanted found offset bytes).opened = [] ∧
        (m.readUntil wanted found offset bytes).unopened.length = wanted ∧
        (m.readUntil wanted found offset bytes).unopened <:+ (m.readAll offset bytes).unopened := by
  induction bytes generalizing m found offset with
  | nil =>
      refine Or.inl ⟨rfl, ?_⟩
      rw [readAll, count]
      exact short
  | cons c rest ih =>
      cases refused : m.rejects c with
      | true =>
          obtain ⟨none_open, read⟩ := read_of_rejects refused offset
          have one_more : (m.read offset c).unopened.length = found + 1 := by
            rw [read, List.length_cons, count]
          by_cases last : wanted ≤ found + 1
          · have ends : (m.readUntil wanted found offset (c :: rest)) = m.read offset c := by
              simp only [readUntil, refused, if_true, (enough_iff positive (found + 1)).mpr last]
            rw [ends]
            refine Or.inr ⟨?_, by omega, unopened_suffix _ _ _⟩
            rw [read]
            exact none_open
          · have goes_on : enough (wanted : Int) (found + 1) = false := by
              rw [← Bool.not_eq_true, enough_iff positive]
              exact last
            simp only [readUntil, readAll, refused, goes_on, if_true, Bool.false_eq_true, if_false]
            exact ih one_more (by omega) (offset + 1)
      | false =>
          have same : (m.read offset c).unopened.length = found := by
            rw [unopened_read refused, count]
          simp only [readUntil, readAll, refused, Bool.false_eq_true, if_false]
          exact ih same short (offset + 1)

private theorem unclosed_of_nonpos (unlimited : limit ≤ 0) (found : Nat) (offsets : List Nat) :
    unclosed limit found offsets = offsets.map (⟨.unclosed, ·⟩) := by
  induction offsets generalizing found with
  | nil => rfl
  | cons offset rest ih => simp [unclosed, enough_of_nonpos unlimited, ih]

private theorem unclosed_eq_take (positive : 0 < wanted) {found : Nat} (short : found ≤ wanted)
    (offsets : List Nat) :
    unclosed wanted found offsets = (offsets.map (⟨.unclosed, ·⟩)).take (wanted - found) := by
  induction offsets generalizing found with
  | nil => simp [unclosed]
  | cons offset rest ih =>
      rcases Nat.eq_or_lt_of_le short with rfl | more
      · have ends := (enough_iff positive found).mpr (Nat.le_refl found)
        simp [unclosed, ends]
      · have goes_on : enough (wanted : Int) found = false := by
          rw [← Bool.not_eq_true, enough_iff positive]
          omega
        have left : wanted - found = wanted - (found + 1) + 1 := by omega
        simp [unclosed, goes_on, ih more, left]

end Brackets

open Brackets

variable {program : List UInt8}

private theorem mismatches_of_nonpos {limit : Int} (unlimited : limit ≤ 0) (program : List UInt8) :
    mismatches program limit = (matching program).mismatches := by
  unfold mismatches Matching.mismatches matching
  simp only [Matching.readUntil_of_nonpos unlimited, unclosed_of_nonpos unlimited]

theorem mismatches_of_pos {wanted : Nat} (positive : 0 < wanted) (program : List UInt8) :
    mismatches program wanted = (matching program).mismatches.take wanted := by
  have start : Matching.empty.unopened.length = 0 := rfl
  unfold mismatches Matching.mismatches matching
  dsimp only
  rcases Matching.readUntil_cases positive start positive 0 program with
    ⟨whole, short⟩ | ⟨none_open, count, earlier, first⟩
  · have fits : ((Matching.empty.readAll 0 program).unopened.reverse.map
        (BracketError.mk .unopened ·)).length ≤ wanted := by
      rw [List.length_map, List.length_reverse]
      exact Nat.le_of_lt short
    rw [whole, unclosed_eq_take positive (Nat.le_of_lt short), List.take_append,
      List.take_of_length_le fits, List.length_map, List.length_reverse]
  · -- The unopened brackets found so far are the first ones, and as many as are wanted.
    have fits : ((Matching.empty.readUntil wanted 0 0 program).unopened.reverse.map
        (BracketError.mk .unopened ·)).length = wanted := by
      rw [List.length_map, List.length_reverse, count]
    have nothing : unclosed wanted
        (Matching.empty.readUntil wanted 0 0 program).unopened.length [] = [] := rfl
    rw [none_open, List.reverse_nil, nothing, List.append_nil, ← first, List.reverse_append,
      List.map_append, List.append_assoc, List.take_append_of_le_length (Nat.le_of_eq fits.symm),
      List.take_of_length_le (Nat.le_of_eq fits)]

theorem mem_mismatches_matching {e : BracketError} :
    e ∈ (matching program).mismatches ↔ e.Unmatched program := by
  obtain ⟨mismatch, offset⟩ := e
  unfold Matching.mismatches
  simp only [List.mem_append, List.mem_map, List.mem_reverse, BracketError.mk.injEq]
  cases mismatch with
  | unopened => simp [BracketError.Unmatched, mem_unopened_iff]
  | unclosed => simp [BracketError.Unmatched, mem_opened_iff]

theorem offsets_mismatches_matching (program : List UInt8) :
    (matching program).mismatches.Pairwise fun e e' => e.offset < e'.offset := by
  have sorted := (matching_reads program).gaps.pairwise
  rw [← List.pairwise_reverse, List.reverse_append] at sorted
  have offsets : (matching program).mismatches.map BracketError.offset =
      (matching program).unopened.reverse ++ (matching program).opened.reverse := by
    simp [Matching.mismatches, Function.comp_def]
  rw [← offsets, List.pairwise_map] at sorted
  exact sorted

private theorem kinds_mismatches_matching (program : List UInt8) :
    (matching program).mismatches.Pairwise
      fun e e' => e'.mismatch = .unopened → e.mismatch = .unopened := by
  unfold Matching.mismatches
  refine List.pairwise_append.mpr ⟨?_, ?_, ?_⟩
  · rw [List.pairwise_map]
    exact List.pairwise_of_forall fun _ _ _ => rfl
  · rw [List.pairwise_map]
    exact List.pairwise_of_forall fun _ _ same => nomatch same
  · intro e first e' _ _
    obtain ⟨_, _, rfl⟩ := List.mem_map.mp first
    rfl

theorem link_eq_error_iff {e : BracketError} :
    link program = .error e ↔ (matching program).mismatches.head? = some e := by
  unfold link
  cases left : (matching program).mismatches with
  | nil => simp [left]
  | cons first rest => simp [left]

private theorem link_eq_error_iff_leftmost {e : BracketError} :
    link program = .error e ↔
      e.Unmatched program ∧ ∀ e' : BracketError, e'.Unmatched program → e.offset ≤ e'.offset := by
  have sorted := offsets_mismatches_matching program
  rw [link_eq_error_iff]
  simp only [← mem_mismatches_matching]
  cases left : (matching program).mismatches with
  | nil => simp
  | cons first rest =>
      rw [left] at sorted
      obtain ⟨later, _⟩ := List.pairwise_cons.mp sorted
      rw [List.head?_cons, Option.some.injEq]
      constructor
      · rintro rfl
        refine ⟨List.mem_cons_self, fun e' member => ?_⟩
        rcases List.mem_cons.mp member with rfl | behind
        · exact Nat.le_refl _
        · exact Nat.le_of_lt (later e' behind)
      · rintro ⟨member, least⟩
        rcases List.mem_cons.mp member with rfl | behind
        · rfl
        · have before := later e behind
          have after := least first List.mem_cons_self
          omega

/-- Without a limit the mismatches are the brackets without partner, in the order of their offsets, the
unopened ones first; a positive limit gives the first of them. A program that does not link has the
first mismatch as its error, which is the leftmost bracket without partner. -/
theorem mismatches_are_unmatched (program : List UInt8) :
    (∀ e : BracketError, e ∈ mismatches program 0 ↔ e.Unmatched program) ∧
      (mismatches program 0).Pairwise (fun e e' => e.offset < e'.offset) ∧
      (mismatches program 0).Pairwise
        (fun e e' => e'.mismatch = .unopened → e.mismatch = .unopened) ∧
      (∀ limit : Int, mismatches program limit =
        if 0 < limit then (mismatches program 0).take limit.toNat else mismatches program 0) ∧
      (∀ e, link program = .error e ↔ (mismatches program 0).head? = some e) ∧
      (∀ e, link program = .error e ↔
        e.Unmatched program ∧ ∀ e' : BracketError, e'.Unmatched program → e.offset ≤ e'.offset) ∧
      ((∃ e, link program = .error e) ↔ mismatches program 0 ≠ []) := by
  have all := mismatches_of_nonpos (Int.le_refl 0) program
  rw [all]
  refine ⟨fun e => mem_mismatches_matching, offsets_mismatches_matching program,
    kinds_mismatches_matching program, ?_, fun e => link_eq_error_iff,
    fun e => link_eq_error_iff_leftmost, ?_⟩
  · intro limit
    split
    case isTrue positive =>
      obtain ⟨wanted, rfl⟩ := Int.eq_ofNat_of_zero_le (Int.le_of_lt positive)
      rw [mismatches_of_pos (by omega), Int.toNat_natCast]
    case isFalse unlimited => exact mismatches_of_nonpos (by omega) program
  · simp only [link_eq_error_iff]
    cases (matching program).mismatches with
    | nil => simp
    | cons first rest => simp

end TapeMachine
