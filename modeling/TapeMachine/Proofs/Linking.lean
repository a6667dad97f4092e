import TapeMachine.Proofs.Balance
/-!
# What linking finds

The brackets that a reading of a program leaves over stand, last first, unclosed ones before unopened
ones, and the text between two neighbours is level. Hence exactly the brackets of balanced parts are
paired, and a program links if and only if it is balanced.
-/

set_option autoImplicit false
set_option relaxedAutoImplicit false

namespace TapeMachine

/-- Every entry of the table is the partner of its bracket, and every bracket has an entry. -/
structure JumpTable.Matches (jumps : JumpTable) (program : List UInt8) : Prop where
  size : jumps.size = program.length
  opening : ∀ i : Nat, program[i]? = some Symbol.opening.toByte →
    ∃ j, jumps[i]? = some (some j) ∧ jumps[j]? = some (some i) ∧ ∀ j', Paired program i j' ↔ j' = j
  closing : ∀ i : Nat, program[i]? = some Symbol.closing.toByte →
    ∃ j, j < i ∧ program[j]? = some Symbol.opening.toByte ∧ jumps[i]? = some (some j) ∧
      jumps[j]? = some (some i)
  other : ∀ (i : Nat) (c : UInt8), program[i]? = some c →
    c ≠ Symbol.opening.toByte → c ≠ Symbol.closing.toByte → jumps[i]? = some none
  nested : ∀ i j i' j' : Nat, jumps[i]? = some (some j) → jumps[i']? = some (some j') →
    i < i' → i' < j → i < j' ∧ j' < j

namespace Brackets

/-- Offsets before `n`, last first, with level texts between them, in front of the first and behind the
last. -/
def Gaps (program : List UInt8) : Nat → List Nat → Prop
  | n, [] => Level program 0 n
  | n, offset :: rest => offset < n ∧ Level program (offset + 1) n ∧ Gaps program offset rest

/-- What is known of a reading that has come to `n`. -/
structure Matching.Reads (m : Matching) (program : List UInt8) (n : Nat) : Prop where
  paired : ∀ pair ∈ m.pairs, Paired program pair.1 pair.2
  opened : ∀ i ∈ m.opened, program[i]? = some Symbol.opening.toByte
  unopened : ∀ i ∈ m.unopened, program[i]? = some Symbol.closing.toByte
  gaps : Gaps program n (m.opened ++ m.unopened)

variable {program : List UInt8} {n : Nat} {m : Matching}

private theorem Gaps.advance {n' : Nat} {offsets : List Nat} (gaps : Gaps program n offsets)
    (order : n ≤ n') (level : Level program n n') : Gaps program n' offsets := by
  cases offsets with
  | nil => exact Level.trans gaps level
  | cons offset rest =>
      obtain ⟨before, last, others⟩ := gaps
      exact ⟨Nat.lt_of_lt_of_le before order, last.trans level, others⟩

private theorem Gaps.push {offsets : List Nat} (gaps : Gaps program n offsets) :
    Gaps program (n + 1) (n :: offsets) :=
  ⟨Nat.lt_succ_self n, Level.refl program (n + 1), gaps⟩

private theorem Gaps.lt {offsets : List Nat} (gaps : Gaps program n offsets) {i : Nat}
    (member : i ∈ offsets) :
    i < n := by
  induction offsets generalizing n with
  | nil => cases member
  | cons offset rest ih =>
      obtain ⟨before, _, others⟩ := gaps
      rcases List.mem_cons.mp member with rfl | later
      · exact before
      · exact Nat.lt_trans (ih others later) before

theorem Gaps.pairwise {offsets : List Nat} (gaps : Gaps program n offsets) :
    offsets.Pairwise fun later earlier => earlier < later := by
  induction offsets generalizing n with
  | nil => exact .nil
  | cons offset rest ih =>
      obtain ⟨_, _, others⟩ := gaps
      exact .cons (fun _ member => others.lt member) (ih others)

private theorem Gaps.drop {front back : List Nat} (gaps : Gaps program n (front ++ back)) :
    ∃ n', Gaps program n' back := by
  induction front generalizing n with
  | nil => exact ⟨n, gaps⟩
  | cons offset rest ih => exact ih gaps.2.2

private theorem Gaps.depth_rises {opened others : List Nat} (gaps : Gaps program n (opened ++ others))
    (known : ∀ i ∈ opened, program[i]? = some Symbol.opening.toByte) {i k : Nat} (member : i ∈ opened)
    (after : i < k) (before : k ≤ n) : depth program i < depth program k := by
  induction opened generalizing n k with
  | nil => cases member
  | cons offset rest ih =>
      obtain ⟨_, level, inner⟩ := gaps
      have up := depth_succ_of_opening (known offset List.mem_cons_self)
      have known_rest : ∀ i ∈ rest, program[i]? = some Symbol.opening.toByte :=
        fun i later => known i (List.mem_cons_of_mem offset later)
      rcases List.mem_cons.mp member with rfl | later
      · have high := level.above k after before
        omega
      · rcases Nat.lt_or_ge offset k with beyond | short
        · have first : i < offset := inner.lt (List.mem_append_left others later)
          have high := level.above k beyond before
          have rise := ih inner known_rest later first (Nat.le_refl offset)
          omega
        · exact ih inner known_rest later after short

private theorem Gaps.depth_lowest {unopened : List Nat} (gaps : Gaps program n unopened)
    (known : ∀ i ∈ unopened, program[i]? = some Symbol.closing.toByte) {k : Nat} (before : k ≤ n) :
    depth program n ≤ depth program k := by
  induction unopened generalizing n k with
  | nil =>
      have high := gaps.above k (Nat.zero_le k) before
      rw [gaps.back]
      exact high
  | cons offset rest ih =>
      obtain ⟨_, level, earlier⟩ := gaps
      have down := depth_succ_of_closing (known offset List.mem_cons_self)
      have back := level.back
      rcases Nat.lt_or_ge offset k with beyond | short
      · have high := level.above k beyond before
        omega
      · have low := ih earlier (fun i later => known i (List.mem_cons_of_mem offset later)) short
        omega

private theorem Gaps.depth_falls {unopened : List Nat} (gaps : Gaps program n unopened)
    (known : ∀ i ∈ unopened, program[i]? = some Symbol.closing.toByte) {i k : Nat}
    (member : i ∈ unopened) (before : k ≤ i) : depth program (i + 1) < depth program k := by
  induction unopened generalizing n with
  | nil => cases member
  | cons offset rest ih =>
      obtain ⟨_, _, earlier⟩ := gaps
      have known_rest : ∀ i ∈ rest, program[i]? = some Symbol.closing.toByte :=
        fun i later => known i (List.mem_cons_of_mem offset later)
      rcases List.mem_cons.mp member with rfl | later
      · have down := depth_succ_of_closing (known i List.mem_cons_self)
        have low := earlier.depth_lowest known_rest before
        omega
      · exact ih earlier known_rest later

namespace Matching.Reads

private theorem empty (program : List UInt8) : Matching.empty.Reads program 0 :=
  ⟨fun _ member => (nomatch member), fun _ member => (nomatch member),
    fun _ member => (nomatch member), Level.refl program 0⟩

private theorem read {c : UInt8} (reads : m.Reads program n) (here : program[n]? = some c) :
    (m.read n c).Reads program (n + 1) := by
  obtain ⟨paired, opened, unopened, gaps⟩ := reads
  rw [← Symbol.toByte_ofByte c] at here ⊢
  generalize Symbol.ofByte c = symbol at here ⊢
  cases symbol with
  | action a =>
      rw [Symbol.toByte] at here ⊢
      rw [Matching.read_action]
      exact ⟨paired, opened, unopened, gaps.advance (Nat.le_succ n) (.action here)⟩
  | opening =>
      rw [Matching.read_opening]
      refine ⟨paired, ?_, unopened, gaps.push⟩
      intro i member
      rcases List.mem_cons.mp member with rfl | old
      · exact here
      · exact opened i old
  | closing =>
      cases stack : m.opened with
      | nil =>
          rw [Matching.read_closing_of_nil _ stack]
          rw [stack] at opened gaps
          refine ⟨paired, by rwa [stack], ?_, ?_⟩
          · intro i member
            rcases List.mem_cons.mp member with rfl | old
            · exact here
            · exact unopened i old
          · rw [stack]
            exact gaps.push
      | cons start others =>
          rw [Matching.read_closing_of_cons _ stack]
          rw [stack] at opened gaps
          obtain ⟨order, inner, outer⟩ := gaps
          have start_opens := opened start List.mem_cons_self
          refine ⟨?_, ?_, unopened, ?_⟩
          · intro pair member
            rcases List.mem_cons.mp member with rfl | old
            · exact .of_level order start_opens here inner
            · exact paired pair old
          · exact fun i member => opened i (List.mem_cons_of_mem start member)
          · exact outer.advance (Nat.le_succ_of_le (Nat.le_of_lt order))
              (.loop order start_opens here inner)

private theorem readAll (reads : m.Reads program n) (inside : n ≤ program.length) :
    (m.readAll n (program.drop n)).Reads program program.length := by
  generalize rest : program.drop n = bytes
  induction bytes generalizing m n with
  | nil =>
      have beyond : program.length ≤ n := List.drop_eq_nil_iff.mp rest
      rw [Nat.le_antisymm beyond inside]
      exact reads
  | cons c bytes ih =>
      have here : program[n]? = some c := by
        rw [← Nat.add_zero n, ← List.getElem?_drop, rest, List.getElem?_cons_zero]
      have next : program.drop (n + 1) = bytes := by
        rw [← List.drop_drop, rest, List.drop_succ_cons, List.drop_zero]
      exact ih (reads.read here) (List.getElem?_eq_some_iff.mp here).1 next

end Matching.Reads

theorem matching_reads (program : List UInt8) :
    (matching program).Reads program program.length :=
  (Matching.Reads.empty program).readAll (Nat.zero_le _)

end Brackets

open Brackets

variable {program : List UInt8} {i j : Nat}

private theorem mem_offsets_of_bracket {c : UInt8} {b : Instruction} (here : program[i]? = some c)
    (known : Instruction.ofByte? c = some b) (bracket : b.IsBracket) :
    i ∈ (matching program).offsets := by
  have entered := Matching.empty.mem_offsets_readAll_bracket 0 here known bracket
  rwa [Nat.zero_add] at entered

private theorem paired_of_mem_offsetsOf (member : i ∈ offsetsOf (matching program).pairs) :
    ∃ j, Paired program i j ∧ (i, j) ∈ (matching program).pairs ∨
      Paired program j i ∧ (j, i) ∈ (matching program).pairs := by
  obtain ⟨⟨start, close⟩, pair, side⟩ := List.mem_flatMap.mp member
  have paired := (matching_reads program).paired _ pair
  simp only [List.mem_cons, List.not_mem_nil, or_false] at side
  rcases side with rfl | rfl
  · exact ⟨close, Or.inl ⟨paired, pair⟩⟩
  · exact ⟨start, Or.inr ⟨paired, pair⟩⟩

private theorem opening_ne_closing {c : Option UInt8} (first : c = some Symbol.opening.toByte)
    (second : c = some Symbol.closing.toByte) : False := by
  rw [first] at second
  exact absurd second (by decide)

theorem mem_opened_iff : i ∈ (matching program).opened ↔
    program[i]? = some Symbol.opening.toByte ∧ ∀ j, ¬ Paired program i j := by
  have reads := matching_reads program
  constructor
  · intro member
    refine ⟨reads.opened i member, fun j paired => ?_⟩
    have low := paired.depth_end
    have high := reads.gaps.depth_rises reads.opened member (k := j + 1)
      (Nat.lt_succ_of_lt paired.order) paired.close_lt
    omega
  · rintro ⟨here, alone⟩
    have known : Instruction.ofByte? Symbol.opening.toByte = some .loopStart := rfl
    have entered := mem_offsets_of_bracket here known (Or.inl rfl)
    rcases List.mem_append.mp entered with member | left
    · obtain ⟨j, ⟨paired, _⟩ | ⟨paired, _⟩⟩ := paired_of_mem_offsetsOf member
      · exact absurd paired (alone j)
      · exact (opening_ne_closing here paired.closing).elim
    · rcases List.mem_append.mp left with opened | unopened
      · exact opened
      · exact (opening_ne_closing here (reads.unopened i unopened)).elim

theorem mem_unopened_iff : i ∈ (matching program).unopened ↔
    program[i]? = some Symbol.closing.toByte ∧ ∀ j, ¬ Paired program j i := by
  have reads := matching_reads program
  constructor
  · intro member
    refine ⟨reads.unopened i member, fun j paired => ?_⟩
    obtain ⟨_, gaps⟩ := reads.gaps.drop
    have low := gaps.depth_falls reads.unopened member (Nat.le_of_lt paired.order)
    have back := paired.depth_end
    omega
  · rintro ⟨here, alone⟩
    have known : Instruction.ofByte? Symbol.closing.toByte = some .loopEnd := rfl
    have entered := mem_offsets_of_bracket here known (Or.inr rfl)
    rcases List.mem_append.mp entered with member | left
    · obtain ⟨j, ⟨paired, _⟩ | ⟨paired, _⟩⟩ := paired_of_mem_offsetsOf member
      · exact (opening_ne_closing paired.opening here).elim
      · exact absurd paired (alone j)
    · rcases List.mem_append.mp left with opened | unopened
      · exact (opening_ne_closing (reads.opened i opened) here).elim
      · exact unopened

theorem balanced_iff_none_left : Balanced program ↔
    (matching program).unopened = [] ∧ (matching program).opened = [] := by
  have reads := matching_reads program
  rw [balanced_iff_level]
  constructor
  · intro level
    have start := depth_zero program
    refine ⟨List.eq_nil_iff_forall_not_mem.mpr fun i member => ?_,
      List.eq_nil_iff_forall_not_mem.mpr fun i member => ?_⟩
    · have inside := (List.getElem?_eq_some_iff.mp (reads.unopened i member)).1
      obtain ⟨_, gaps⟩ := reads.gaps.drop
      have low := gaps.depth_falls reads.unopened member (Nat.zero_le i)
      have high := level.above (i + 1) (Nat.zero_le _) inside
      omega
    · have inside := (List.getElem?_eq_some_iff.mp (reads.opened i member)).1
      have rise := reads.gaps.depth_rises reads.opened member inside (Nat.le_refl _)
      have high := level.above i (Nat.zero_le _) (Nat.le_of_lt inside)
      have back := level.back
      omega
  · rintro ⟨unopened, opened⟩
    have gaps := reads.gaps
    rw [unopened, opened] at gaps
    exact gaps

theorem exists_link_iff_balanced : (∃ jumps, link program = .ok jumps) ↔ Balanced program := by
  rw [balanced_iff_none_left]
  constructor
  · rintro ⟨jumps, linked⟩
    obtain ⟨unopened, opened, _⟩ := link_eq_ok_iff.mp linked
    exact ⟨unopened, opened⟩
  · rintro ⟨unopened, opened⟩
    exact ⟨_, link_eq_ok_iff.mpr ⟨unopened, opened, rfl⟩⟩

theorem link_entries {jumps : JumpTable} (linked : link program = .ok jumps)
    (paired : Paired program i j) : jumps[i]? = some (some j) ∧ jumps[j]? = some (some i) := by
  have known : Instruction.ofByte? Symbol.opening.toByte = some .loopStart := rfl
  obtain ⟨other, pair⟩ := exists_mem_pairs_of_link linked paired.opening known (Or.inl rfl)
  obtain ⟨_, _, rfl⟩ := link_eq_ok_iff.mp linked
  rcases pair with member | member
  · have found := (matching_reads program).paired _ member
    obtain rfl := paired.close_unique found
    obtain ⟨forth, back⟩ := paired?_of_mem member
    exact ⟨JumpTable.paired?_eq_some_iff.mp forth, JumpTable.paired?_eq_some_iff.mp back⟩
  · have found := (matching_reads program).paired _ member
    exact (opening_ne_closing paired.opening found.closing).elim

theorem paired_of_entry {jumps : JumpTable} (linked : link program = .ok jumps)
    (entry : jumps[i]? = some (some j)) : Paired program i j ∨ Paired program j i := by
  have size := size_of_link linked
  have inside : i < jumps.size := (Array.getElem?_eq_some_iff.mp entry).1
  by_cases member : i ∈ offsetsOf (matching program).pairs
  · obtain ⟨k, ⟨paired, _⟩ | ⟨paired, _⟩⟩ := paired_of_mem_offsetsOf member
    · have found := (link_entries linked paired).1
      rw [entry, Option.some.injEq, Option.some.injEq] at found
      rw [found]
      exact Or.inl paired
    · have found := (link_entries linked paired).2
      rw [entry, Option.some.injEq, Option.some.injEq] at found
      rw [found]
      exact Or.inr paired
  · obtain ⟨_, _, rfl⟩ := link_eq_ok_iff.mp linked
    rw [getElem?_table_of_not_mem member (by rwa [size] at inside)] at entry
    cases entry

private theorem JumpTable.Matches.paired_of_closing {jumps : JumpTable}
    (fits : JumpTable.Matches jumps program) (here : program[i]? = some Symbol.closing.toByte) :
    ∃ j, Paired program j i ∧ jumps[i]? = some (some j) := by
  obtain ⟨j, _, opens, entry, back⟩ := fits.closing i here
  obtain ⟨k, forth, _, only⟩ := fits.opening j opens
  rw [back, Option.some.injEq, Option.some.injEq] at forth
  exact ⟨j, (only i).mpr forth, entry⟩

theorem JumpTable.Matches.unique {jumps jumps' : JumpTable} (first : JumpTable.Matches jumps program)
    (second : JumpTable.Matches jumps' program) : jumps = jumps' := by
  apply Array.ext_getElem?
  intro i
  cases here : program[i]? with
  | none =>
      have beyond := List.getElem?_eq_none_iff.mp here
      have none_first : jumps[i]? = none := by
        rw [Array.getElem?_eq_none_iff, first.size]
        exact beyond
      have none_second : jumps'[i]? = none := by
        rw [Array.getElem?_eq_none_iff, second.size]
        exact beyond
      rw [none_first, none_second]
  | some c =>
      by_cases opens : c = Symbol.opening.toByte
      · rw [opens] at here
        obtain ⟨j, entry, _, only⟩ := first.opening i here
        obtain ⟨j', entry', _, only'⟩ := second.opening i here
        have same : j = j' := (only' j).mp ((only j).mpr rfl)
        rw [entry, entry', same]
      · by_cases closes : c = Symbol.closing.toByte
        · rw [closes] at here
          obtain ⟨j, paired, entry⟩ := first.paired_of_closing here
          obtain ⟨j', paired', entry'⟩ := second.paired_of_closing here
          rw [entry, entry', paired.open_unique paired']
        · rw [first.other i c here opens closes, second.other i c here opens closes]

private theorem matches_of_link {jumps : JumpTable} (linked : link program = .ok jumps) :
    jumps.Matches program := by
  obtain ⟨none_unopened, none_opened, _⟩ := link_eq_ok_iff.mp linked
  refine ⟨size_of_link linked, ?_, ?_, ?_, ?_⟩
  · intro i here
    obtain ⟨j, paired⟩ : ∃ j, Paired program i j := by
      apply Classical.byContradiction
      intro alone
      have left := mem_opened_iff.mpr ⟨here, not_exists.mp alone⟩
      rw [none_opened] at left
      cases left
    obtain ⟨forth, back⟩ := link_entries linked paired
    refine ⟨j, forth, back, fun j' => ⟨fun other => other.close_unique paired, ?_⟩⟩
    rintro rfl
    exact paired
  · intro i here
    obtain ⟨j, paired⟩ : ∃ j, Paired program j i := by
      apply Classical.byContradiction
      intro alone
      have left := mem_unopened_iff.mpr ⟨here, not_exists.mp alone⟩
      rw [none_unopened] at left
      cases left
    obtain ⟨forth, back⟩ := link_entries linked paired
    exact ⟨j, paired.order, paired.opening, back, forth⟩
  · intro i c here not_opening not_closing
    have inside := (List.getElem?_eq_some_iff.mp here).1
    have absent : i ∉ offsetsOf (matching program).pairs := by
      intro member
      obtain ⟨j, ⟨paired, _⟩ | ⟨paired, _⟩⟩ := paired_of_mem_offsetsOf member
      · exact not_opening (Option.some.inj (here.symm.trans paired.opening))
      · exact not_closing (Option.some.inj (here.symm.trans paired.closing))
    obtain ⟨_, _, rfl⟩ := link_eq_ok_iff.mp linked
    exact getElem?_table_of_not_mem absent inside
  · intro i j i' j' outer inner after before
    have pair : Paired program i j := by
      rcases paired_of_entry linked outer with forward | backward
      · exact forward
      · have order := backward.order
        omega
    rcases paired_of_entry linked inner with opens | closes
    · exact ⟨Nat.lt_trans after opens.order, pair.close_lt_of_inside opens after before⟩
    · exact ⟨pair.open_gt_of_inside closes after before, Nat.lt_trans closes.order before⟩

/-- A program links if and only if it is balanced, and then the table is its bracket matching and no
other. A program that is not balanced has an error in place of a table. -/
theorem link_matches_brackets (program : List UInt8) :
    ((∃ jumps, link program = .ok jumps) ↔ Balanced program) ∧
      ((∃ e, link program = .error e) ↔ ¬ Balanced program) ∧
      ∀ jumps, link program = .ok jumps ↔ Balanced program ∧ JumpTable.Matches jumps program := by
  have links : (∃ jumps, link program = .ok jumps) ↔ Balanced program := exists_link_iff_balanced
  refine ⟨links, ?_, ?_⟩
  · rw [← links]
    cases link program with
    | error e => simp
    | ok jumps => simp
  · intro jumps
    constructor
    · intro linked
      exact ⟨links.mp ⟨jumps, linked⟩, matches_of_link linked⟩
    · rintro ⟨balanced, fits⟩
      obtain ⟨jumps', linked⟩ := links.mpr balanced
      rw [fits.unique (matches_of_link linked)]
      exact linked

end TapeMachine
