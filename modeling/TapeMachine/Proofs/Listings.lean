import TapeMachine.Proofs.Entries
import TapeMachine.Proofs.Linking
import TapeMachine.Proofs.Writing
/-!
# What a listing says

The loop that writes a listing goes from one instruction to the next, over the comments between them,
so it writes the line of every instruction once and in order, as one text in pieces. The entries of a
program are determined by its instructions and their offsets, and they are read back from the text, so
the listings of two programs are equal exactly if the programs differ in comments only.
-/

set_option autoImplicit false
set_option relaxedAutoImplicit false

namespace TapeMachine

/-- Two programs have the same instructions at the same offsets. -/
def SameInstructions (program program' : List UInt8) : Prop :=
  ∀ (offset : Nat) (i : Instruction),
    program[offset]? = some i.toByte ↔ program'[offset]? = some i.toByte

namespace SameInstructions

variable {program program' : List UInt8}

theorem symm (same : SameInstructions program program') : SameInstructions program' program :=
  fun offset i => (same offset i).symm

private theorem depth_eq (same : SameInstructions program program') (n : Nat) :
    depth program n = depth program' n := by
  induction n with
  | zero => rw [depth_zero, depth_zero]
  | succ n ih =>
      have opens := same n .loopStart
      have closes := same n .loopEnd
      by_cases opening : program[n]? = some Symbol.opening.toByte
      · rw [depth_succ_of_opening opening, depth_succ_of_opening (opens.mp opening), ih]
      · by_cases closing : program[n]? = some Symbol.closing.toByte
        · rw [depth_succ_of_closing closing, depth_succ_of_closing (closes.mp closing), ih]
        · rw [depth_succ_of_other opening closing,
            depth_succ_of_other (mt opens.mpr opening) (mt closes.mpr closing), ih]

private theorem paired (same : SameInstructions program program') {i j : Nat}
    (pair : Paired program i j) :
    Paired program' i j := by
  have level := pair.level
  refine Paired.of_level pair.order ((same i .loopStart).mp pair.opening)
    ((same j .loopEnd).mp pair.closing) ⟨?_, fun k after before => ?_⟩
  · rw [← same.depth_eq, ← same.depth_eq]
    exact level.back
  · rw [← same.depth_eq, ← same.depth_eq]
    exact level.above k after before

theorem paired_iff (same : SameInstructions program program') {i j : Nat} :
    Paired program i j ↔ Paired program' i j :=
  ⟨same.paired, same.symm.paired⟩

end SameInstructions

namespace Listing

def text (program : List UInt8) : Except BracketError (List UInt8) :=
  (write program (.sink .unlimited)).map fun done => done.1.sink.accepted.toList

/-- The first offset from another one on that holds an instruction, or the size of the program if there
is none. -/
structure NextFrom (program : List UInt8) (offset next : Nat) : Prop where
  after : offset ≤ next
  inside : next ≤ program.length
  skips : ∀ k, offset ≤ k → k < next → ∀ i : Instruction, program[k]? ≠ some i.toByte
  finds : next < program.length → ∃ i : Instruction, program[next]? = some i.toByte

/-- What an entry says is so. A bracket has the other bracket of its pair as its partner, and other
instructions have none. -/
structure Entry.Describes (e : Entry) (program : List UInt8) : Prop where
  here : program[e.offset]? = some e.instruction.toByte
  bracket : e.partner.isSome = true ↔ e.instruction.IsBracket
  pair : ∀ other, e.partner = some other ↔
    Paired program e.offset other ∨ Paired program other e.offset

/-- There is one entry for each instruction, in the order of their offsets. -/
structure Lists (entries : List Entry) (program : List UInt8) : Prop where
  ordered : entries.Pairwise fun e e' => e.offset < e'.offset
  complete : ∀ (offset : Nat) (i : Instruction), program[offset]? = some i.toByte →
    ∃ e ∈ entries, e.offset = offset
  correct : ∀ e ∈ entries, e.Describes program

section Lists

variable {program program' : List UInt8} {entries entries' : List Entry} {e e' : Entry}

private theorem Entry.Describes.transfer (describes : e.Describes program)
    (same : SameInstructions program program') : e.Describes program' := by
  refine ⟨(same _ _).mp describes.here, describes.bracket, fun other => ?_⟩
  rw [← same.paired_iff, ← same.paired_iff]
  exact describes.pair other

private theorem Entry.Describes.unique (describes : e.Describes program)
    (describes' : e'.Describes program) (offset : e.offset = e'.offset) : e = e' := by
  have here := describes.here
  rw [offset, describes'.here, Option.some.injEq] at here
  have instruction := Instruction.toByte_injective here
  have partner : e.partner = e'.partner := by
    apply Option.ext
    intro other
    rw [describes.pair, describes'.pair, offset]
  obtain ⟨_, _, _⟩ := e
  obtain ⟨_, _, _⟩ := e'
  simp only at offset instruction partner
  rw [offset, instruction, partner]

private theorem Lists.transfer (lists : Lists entries program)
    (same : SameInstructions program program') :
    Lists entries program' := by
  refine ⟨lists.ordered, fun offset i here => ?_, fun e member => ?_⟩
  · exact lists.complete offset i ((same offset i).mpr here)
  · exact (lists.correct e member).transfer same

private theorem Lists.subset (lists : Lists entries program) (lists' : Lists entries' program) :
    entries ⊆ entries' := by
  intro e member
  have describes := lists.correct e member
  obtain ⟨e', member', offset⟩ := lists'.complete _ _ describes.here
  rw [describes.unique (lists'.correct e' member') offset.symm]
  exact member'

theorem Lists.unique (lists : Lists entries program) (lists' : Lists entries' program) :
    entries = entries' := by
  have nodup {entries : List Entry} (lists : Lists entries program) : entries.Nodup :=
    lists.ordered.imp fun before same => absurd (congrArg Entry.offset same) (Nat.ne_of_lt before)
  have perm : entries.Perm entries' := by
    rw [List.perm_ext_iff_of_nodup (nodup lists) (nodup lists')]
    intro e
    exact ⟨fun member => lists.subset lists' member, fun member => lists'.subset lists member⟩
  refine perm.eq_of_pairwise (fun e e' _ _ before after => ?_) lists.ordered lists'.ordered
  exact absurd before (Nat.lt_asymm after)

private theorem Lists.sameInstructions (lists : Lists entries program)
    (lists' : Lists entries program') :
    SameInstructions program program' := by
  have known {program program' : List UInt8} (lists : Lists entries program)
      (lists' : Lists entries program') (offset : Nat) (i : Instruction)
      (here : program[offset]? = some i.toByte) : program'[offset]? = some i.toByte := by
    obtain ⟨e, member, rfl⟩ := lists.complete offset i here
    rw [(lists.correct e member).here] at here
    rw [← here]
    exact (lists'.correct e member).here
  exact fun offset i => ⟨known lists lists' offset i, known lists' lists offset i⟩

end Lists

section Entries

variable {program : List UInt8} {jumps : JumpTable} {offset next : Nat} {i : Instruction}

def entryAt? (program : List UInt8) (jumps : JumpTable) (offset : Nat) : Option Entry :=
  (program[offset]?.bind Instruction.ofByte?).map (⟨offset, ·, jumps.paired? offset⟩)

def entriesFrom (program : List UInt8) (jumps : JumpTable) (offset : Nat) : List Entry :=
  (List.range' offset (program.length - offset)).filterMap (entryAt? program jumps)

private theorem entryAt?_eq_some_iff {e : Entry} : entryAt? program jumps offset = some e ↔
    ∃ i : Instruction, program[offset]? = some i.toByte ∧ e = ⟨offset, i, jumps.paired? offset⟩ := by
  simp only [entryAt?, Option.map_eq_some_iff, Option.bind_eq_some_iff,
    Instruction.ofByte?_eq_some_iff]
  constructor
  · rintro ⟨i, ⟨c, here, rfl⟩, rfl⟩
    exact ⟨i, here, rfl⟩
  · rintro ⟨i, here, rfl⟩
    exact ⟨i, ⟨_, here, rfl⟩, rfl⟩

private theorem nextFrom_nextInstruction (inside : offset ≤ program.length) :
    NextFrom program offset (nextInstruction program.toArray offset) := by
  fun_induction nextInstruction program.toArray offset with
  | case1 offset _ known =>
      obtain ⟨i, here⟩ := Instruction.isInstruction_iff.mp known
      refine ⟨Nat.le_refl _, inside, fun k after before => absurd before (Nat.not_lt.mpr after), ?_⟩
      intro short
      refine ⟨i, ?_⟩
      rw [List.getElem?_eq_getElem short, ← here, List.getElem_toArray]
  | case2 offset within comment ih =>
      have short : offset < program.length := by simpa using within
      obtain ⟨after, inside, skips, finds⟩ := ih short
      refine ⟨Nat.le_of_succ_le after, inside, fun k low high i here => ?_, finds⟩
      rcases Nat.eq_or_lt_of_le low with rfl | later
      · rw [List.getElem?_eq_getElem short, Option.some.injEq] at here
        rw [List.getElem_toArray] at comment
        exact comment (Instruction.isInstruction_iff.mpr ⟨i, here⟩)
      · exact skips k later high i here
  | case3 offset outside =>
      have ends : offset = program.length := by
        rw [List.size_toArray] at outside
        omega
      rw [List.size_toArray, ends]
      refine ⟨Nat.le_refl _, Nat.le_refl _, fun k after before => ?_, fun short => ?_⟩
      · exact absurd before (Nat.not_lt.mpr after)
      · exact absurd short (Nat.lt_irrefl _)

private theorem NextFrom.self (next_from : NextFrom program offset next) :
    NextFrom program next next :=
  ⟨Nat.le_refl next, next_from.inside, fun _ low high => absurd high (Nat.not_lt.mpr low),
    next_from.finds⟩

private theorem NextFrom.entriesFrom_eq (next_from : NextFrom program offset next)
    (jumps : JumpTable) :
    entriesFrom program jumps offset = entriesFrom program jumps next := by
  obtain ⟨after, inside, skips, _⟩ := next_from
  obtain ⟨gap, rfl⟩ := Nat.exists_eq_add_of_le after
  have none_here : (List.range' offset gap).filterMap (entryAt? program jumps) = [] := by
    rw [List.filterMap_eq_nil_iff]
    intro k member
    obtain ⟨low, high⟩ := List.mem_range'_1.mp member
    rw [Option.eq_none_iff_forall_ne_some]
    intro e known
    obtain ⟨i, here, _⟩ := entryAt?_eq_some_iff.mp known
    exact skips k low high i here
  have split : program.length - offset = gap + (program.length - (offset + gap)) := by omega
  unfold entriesFrom
  rw [split, ← List.range'_append_1, List.filterMap_append, none_here, List.nil_append]

private theorem entriesFrom_of_instruction (here : program[offset]? = some i.toByte)
    (jumps : JumpTable) :
    entriesFrom program jumps offset =
      ⟨offset, i, jumps.paired? offset⟩ :: entriesFrom program jumps (offset + 1) := by
  have inside := (List.getElem?_eq_some_iff.mp here).1
  have entry : entryAt? program jumps offset = some ⟨offset, i, jumps.paired? offset⟩ :=
    entryAt?_eq_some_iff.mpr ⟨i, here, rfl⟩
  have one_less : program.length - offset = program.length - (offset + 1) + 1 := by omega
  unfold entriesFrom
  rw [one_less, List.range'_succ, List.filterMap_cons_some entry]

private theorem describes_of_link (linked : link program = .ok jumps)
    (here : program[offset]? = some i.toByte) :
    (Entry.mk offset i (jumps.paired? offset)).Describes program := by
  have pair (other : Nat) : jumps.paired? offset = some other ↔
      Paired program offset other ∨ Paired program other offset := by
    rw [JumpTable.paired?_eq_some_iff]
    constructor
    · exact paired_of_entry linked
    · rintro (opens | closes)
      · exact (link_entries linked opens).1
      · exact (link_entries linked closes).2
  refine ⟨here, ⟨fun some_partner => ?_, fun bracket => ?_⟩, pair⟩
  · obtain ⟨other, partner⟩ := Option.isSome_iff_exists.mp some_partner
    rcases (pair other).mp partner with opens | closes
    · have found := opens.opening
      rw [here, Option.some.injEq] at found
      exact Or.inl (Instruction.toByte_injective found)
    · have found := closes.closing
      rw [here, Option.some.injEq] at found
      exact Or.inr (Instruction.toByte_injective found)
  · obtain ⟨other, partner, _⟩ :=
      exists_paired?_of_link linked here (Instruction.ofByte?_toByte i) bracket
    exact Option.isSome_iff_exists.mpr ⟨other, partner⟩

theorem lists_entriesFrom (linked : link program = .ok jumps) :
    Lists (entriesFrom program jumps 0) program := by
  refine ⟨?_, fun offset i here => ?_, fun e member => ?_⟩
  · unfold entriesFrom
    rw [List.pairwise_filterMap]
    have offsets : (List.range' 0 (program.length - 0)).Pairwise (· < ·) := List.pairwise_lt_range' ..
    refine offsets.imp fun before e known e' known' => ?_
    obtain ⟨_, _, rfl⟩ := entryAt?_eq_some_iff.mp known
    obtain ⟨_, _, rfl⟩ := entryAt?_eq_some_iff.mp known'
    exact before
  · have inside := (List.getElem?_eq_some_iff.mp here).1
    refine ⟨⟨offset, i, jumps.paired? offset⟩, List.mem_filterMap.mpr ⟨offset, ?_, ?_⟩, rfl⟩
    · exact List.mem_range'_1.mpr (by omega)
    · exact entryAt?_eq_some_iff.mpr ⟨i, here, rfl⟩
  · obtain ⟨offset, _, known⟩ := List.mem_filterMap.mp member
    obtain ⟨i, here, rfl⟩ := entryAt?_eq_some_iff.mp known
    exact describes_of_link linked here

end Entries

section Write

variable {program : List UInt8} {jumps : JumpTable} {offset next : Nat} {i : Instruction}

def Entry.pieces (e : Entry) : List (List UInt8) :=
  offsetColumn e.offset :: Text.bytes e.instruction.mnemonic ::
    match e.partner with
    | some other => [[32], Text.decimal other, [10]]
    | none => [[10]]

private theorem Entry.flatten_pieces (e : Entry) : e.pieces.flatten = e.line := by
  obtain ⟨offset, i, partner⟩ := e
  cases partner <;> simp [Entry.pieces, Entry.line]

private theorem describe_of_link (linked : link program = .ok jumps)
    (here : program[offset]? = some i.toByte) :
    offsetColumn offset :: describe i.toByte jumps offset ++ [[10]] =
      (Entry.mk offset i (jumps.paired? offset)).pieces := by
  have describes := describes_of_link linked here
  cases partner : jumps.paired? offset with
  | some other =>
      rw [partner] at describes
      have leads : jumps.partner offset = other := by
        rw [JumpTable.partner_eq_getD, partner]
        rfl
      rcases describes.bracket.mp rfl with rfl | rfl
      · simp [describe, Entry.pieces, Instruction.nameOfByte, leads]
      · simp [describe, Entry.pieces, Instruction.nameOfByte, leads]
  | none =>
      rw [partner] at describes
      have other : ¬ i.IsBracket := fun bracket => nomatch describes.bracket.mpr bracket
      cases i
      case loopStart => exact absurd (Or.inl rfl) other
      case loopEnd => exact absurd (Or.inr rfl) other
      all_goals simp [describe, Entry.pieces, Instruction.nameOfByte]

private theorem exists_entry_of_writeAt? (linked : link program = .ok jumps)
    (starts : NextFrom program offset offset) {w line : FailStop}
    (described : writeAt? program.toArray jumps offset (.failStop (w.write (offsetColumn offset)).1) =
      some (line, next)) :
    NextFrom program next next ∧ ∃ e : Entry, (line.write [10]).1 = w.writeAll e.pieces ∧
      entriesFrom program jumps offset = e :: entriesFrom program jumps next := by
  have inside := (lt_of_writeAt? described).1
  have short : offset < program.length := by simpa using inside
  obtain ⟨i, here⟩ := starts.finds short
  have byte : program.toArray[offset] = i.toByte := by
    rw [List.getElem_toArray]
    exact (List.getElem?_eq_some_iff.mp here).2
  rw [writeAt?, dif_pos inside, byte] at described
  cases described
  have after := nextFrom_nextInstruction short
  refine ⟨after.self, ⟨offset, i, jumps.paired? offset⟩, ?_, ?_⟩
  · rw [← describe_of_link linked here, List.cons_append, FailStop.writeAll_cons,
      FailStop.writeAll_append]
    rfl
  · rw [entriesFrom_of_instruction here, after.entriesFrom_eq]

private theorem writeLines_eq_writeAll (linked : link program = .ok jumps) (w : FailStop)
    (starts : NextFrom program offset offset) :
    (writeLines program.toArray jumps offset w).1 =
        w.writeAll ((entriesFrom program jumps offset).flatMap Entry.pieces) ∧
      (w.failed = none → (writeLines program.toArray jumps offset w).2 =
        (writeLines program.toArray jumps offset w).1.failed) := by
  fun_induction writeLines program.toArray jumps offset w with
  | case1 offset w outside =>
      have none_left : program.length - offset = 0 := by
        by_contra some_left
        have inside : offset < program.toArray.size := by
          rw [List.size_toArray]
          omega
        rw [writeAt?, dif_pos inside] at outside
        cases outside
      refine ⟨?_, Eq.symm⟩
      rw [entriesFrom, none_left]
      rfl
  | case2 offset w line next described w₁ failure failed =>
      obtain ⟨_, e, written, entries⟩ := exists_entry_of_writeAt? linked starts described
      refine ⟨?_, fun _ => failed.symm⟩
      rw [entries, List.flatMap_cons, FailStop.writeAll_append, ← written,
        FailStop.writeAll_of_failed failed]
  | case3 offset w line next described w₁ unfailed ih =>
      obtain ⟨after, e, written, entries⟩ := exists_entry_of_writeAt? linked starts described
      obtain ⟨later, answer⟩ := ih after
      refine ⟨?_, fun _ => answer unfailed⟩
      rw [later, entries, List.flatMap_cons, FailStop.writeAll_append, ← written]

/-- A program that links is listed by its entries, whatever the writer takes of their lines. -/
theorem write_eq_of_link (linked : link program = .ok jumps) (w : Writer) :
    ∃ answer, write program w =
        .ok ((FailStop.wrap w).writeAll ((entriesFrom program jumps 0).flatMap Entry.pieces), answer) ∧
      ((FailStop.wrap w).failed = none → answer =
        ((FailStop.wrap w).writeAll ((entriesFrom program jumps 0).flatMap Entry.pieces)).failed) := by
  have first := nextFrom_nextInstruction (Nat.zero_le program.length)
  obtain ⟨lines, answer⟩ := writeLines_eq_writeAll linked (.wrap w) first.self
  rw [← first.entriesFrom_eq] at lines
  rw [lines] at answer
  refine ⟨_, ?_, answer⟩
  unfold write
  simp only [linked, ← lines]

theorem flatten_flatMap_pieces (entries : List Entry) :
    (entries.flatMap Entry.pieces).flatten = entries.flatMap Entry.line := by
  induction entries with
  | nil => rfl
  | cons e rest ih =>
      rw [List.flatMap_cons, List.flatMap_cons, List.flatten_append, e.flatten_pieces, ih]

theorem write_unlimited (linked : link program = .ok jumps) {sink : Sink}
    (unlimited : sink.room = none) :
    ∃ w, write program (.sink sink) = .ok (w, none) ∧ w.sink.accepted.toList =
      sink.accepted.toList ++ (entriesFrom program jumps 0).flatMap Entry.line := by
  obtain ⟨accepted, room, fault⟩ := sink
  cases unlimited
  obtain ⟨accepted', written, done⟩ :=
    FailStop.writeAll_unlimited accepted fault ((entriesFrom program jumps 0).flatMap Entry.pieces)
  obtain ⟨answer, wrote, fine⟩ := write_eq_of_link linked (.sink ⟨accepted, none, fault⟩)
  rw [FailStop.wrap, FailStop.ofSink, done] at wrote fine
  obtain rfl := fine rfl
  rw [flatten_flatMap_pieces] at written
  exact ⟨_, wrote, written⟩

theorem text_eq_of_link (linked : link program = .ok jumps) :
    text program = .ok ((entriesFrom program jumps 0).flatMap Entry.line) := by
  have unlimited : Sink.unlimited.room = none := rfl
  obtain ⟨w, wrote, accepted⟩ := write_unlimited linked unlimited
  rw [text, wrote, Except.map, accepted]
  rfl

end Write

theorem text_eq_iff {program program' : List UInt8} {jumps jumps' : JumpTable}
    (linked : link program = .ok jumps) (linked' : link program' = .ok jumps') :
    text program = text program' ↔ SameInstructions program program' := by
  have lists := lists_entriesFrom linked
  have lists' := lists_entriesFrom linked'
  rw [text_eq_of_link linked, text_eq_of_link linked', Except.ok.injEq]
  constructor
  · intro same
    have read := readEntries?_lines (entriesFrom program jumps 0)
    rw [same, readEntries?_lines, Option.some.injEq] at read
    rw [read] at lists'
    exact lists.sameInstructions lists'
  · intro same
    rw [(lists.transfer same).unique lists']

/-- A program that links is listed wherever nothing fails, with a line for each instruction and nothing
else, in the order of their offsets, and the lines are read back. Two such programs have the same
listing if and only if they have the same instructions at the same offsets. From every offset the
description of one byte leads to the next instruction. For a program that does not link there is the
error of linking, and nothing is written. -/
theorem listing_is_complete (program : List UInt8) :
    (∀ jumps, link program = .ok jumps →
      (∃ entries, Lists entries program ∧ text program = .ok (entries.flatMap Entry.line) ∧
        readEntries? (entries.flatMap Entry.line) = some entries ∧
        ∀ sink : Sink, sink.room = none → ∃ w, write program (.sink sink) = .ok (w, none) ∧
          w.sink.accepted.toList = sink.accepted.toList ++ entries.flatMap Entry.line) ∧
      (∀ program' jumps', link program' = .ok jumps' →
        (text program = text program' ↔ SameInstructions program program')) ∧
      ∀ offset, offset < program.length → ∀ w, ∃ w' next,
        writeAt? program.toArray jumps offset w = some (w', next) ∧
          NextFrom program (offset + 1) next) ∧
    ∀ e, link program = .error e → ∀ w, write program w = .error e := by
  refine ⟨fun jumps linked => ⟨?_, ?_, ?_⟩, fun e refused w => ?_⟩
  · exact ⟨entriesFrom program jumps 0, lists_entriesFrom linked, text_eq_of_link linked,
      readEntries?_lines _, fun sink unlimited => write_unlimited linked unlimited⟩
  · intro program' jumps' linked'
    exact text_eq_iff linked linked'
  · intro offset inside w
    have short : offset < program.toArray.size := by simpa using inside
    exact ⟨_, _, dif_pos short, nextFrom_nextInstruction inside⟩
  · unfold write
    simp only [refused]

/-- A program with comments in front, behind and between its brackets, and another one with the same
listing. -/
theorem listing_is_complete_commented : ∃ jumps jumps' entries w,
    link [97, 43, 91, 32, 45, 93, 98] = .ok jumps ∧ link [10, 43, 91, 195, 45, 93] = .ok jumps' ∧
    Lists entries [97, 43, 91, 32, 45, 93, 98] ∧
    entries = [⟨1, .increment, none⟩, ⟨2, .loopStart, some 5⟩, ⟨4, .decrement, none⟩,
      ⟨5, .loopEnd, some 2⟩] ∧
    SameInstructions [97, 43, 91, 32, 45, 93, 98] [10, 43, 91, 195, 45, 93] ∧
    write [97, 43, 91, 32, 45, 93, 98] (.sink .unlimited) = .ok (w, none) ∧
    w.sink.accepted.toList = Text.bytes
      "         1\tinc\n         2\topen 5\n         4\tdec\n         5\tclose 2\n" ∧
    write [91, 93, 93] (.failStop w) = .error ⟨.unopened, 2⟩ := by
  have linked : link [97, 43, 91, 32, 45, 93, 98] =
      .ok #[none, none, some 5, none, none, some 2, none] := by decide
  have linked' : link [10, 43, 91, 195, 45, 93] = .ok #[none, none, some 5, none, none, some 2] := by
    decide
  have refused : link [91, 93, 93] = .error ⟨.unopened, 2⟩ := by decide
  have written : text [97, 43, 91, 32, 45, 93, 98] = .ok (Text.bytes
      "         1\tinc\n         2\topen 5\n         4\tdec\n         5\tclose 2\n") := by
    decide +kernel
  have read : readEntries? (Text.bytes
      "         1\tinc\n         2\topen 5\n         4\tdec\n         5\tclose 2\n") =
        some [⟨1, .increment, none⟩, ⟨2, .loopStart, some 5⟩, ⟨4, .decrement, none⟩,
          ⟨5, .loopEnd, some 2⟩] := by
    decide +kernel
  obtain ⟨entries, lists, listing, back, write⟩ :=
    ((listing_is_complete [97, 43, 91, 32, 45, 93, 98]).1 _ linked).1
  obtain ⟨w, wrote, accepted⟩ := write .unlimited rfl
  rw [written, Except.ok.injEq] at listing
  rw [← listing, read, Option.some.injEq] at back
  have same := ((listing_is_complete [97, 43, 91, 32, 45, 93, 98]).1 _ linked).2.1 _ _ linked'
  refine ⟨_, _, entries, w, linked, linked', lists, back.symm, same.mp ?_, wrote, ?_,
    (listing_is_complete [91, 93, 93]).2 _ refused _⟩
  · rw [written]
    decide +kernel
  · rw [accepted, ← listing]
    rfl

end Listing

end TapeMachine
