import Mathlib.Data.List.DropRight
import TapeMachine.Dump
import TapeMachine.Text.Utf8
import TapeMachine.Proofs.Decimals
import TapeMachine.Proofs.Restoring
import TapeMachine.Proofs.Writing
/-!
# Reading dumps back

Every section of a dump starts with a character that is no part of a number, and its numbers are
separated by single spaces, so the three sections can be cut apart and their numbers read back, however
many there are. Cells that a dump leaves out are 0. Hence a dump, together with the size of the tape,
tells the registers, all cells and the unread output, and nothing else.
-/

set_option autoImplicit false
set_option relaxedAutoImplicit false

namespace TapeMachine.Dump

open Text (number? isDigit)

/-- What a dump shows of a machine. -/
structure View where
  pc : Nat
  state : RunState
  pointer : Nat
  /-- All cells of the tape. -/
  cells : List UInt8
  output : List UInt8
  deriving DecidableEq, Repr

def view (m : Machine) : View where
  pc := m.pc
  state := m.state
  pointer := m.tape.pointer
  cells := m.tape.cells.toList
  output := m.output.unread

/-- The text of a dump: what is written where nothing fails. -/
def text (m : Machine) : List UInt8 := (write m (.sink .unlimited)).1.sink.accepted.toList

def numbers (lead : List UInt8) : List Nat → List (List UInt8)
  | [] => [lead]
  | [n] => [lead ++ Text.decimal n]
  | n :: rest => (lead ++ Text.decimal n ++ [32]) :: numbers [] rest

def pieces (m : Machine) : List (List UInt8) :=
  numbers [fileSeparator] [m.pc, m.state.toNat, m.tape.pointer] ++
  numbers [groupSeparator] ((trimmed m.tape.cells.toList).map UInt8.toNat) ++
  numbers [groupSeparator] (m.output.unread.map UInt8.toNat)

private theorem writeNumbers_eq (lead : List UInt8) (ns : List Nat) (w : FailStop) :
    writeNumbers lead ns w = (w.writeAll (numbers lead ns), (w.writeAll (numbers lead ns)).failed) := by
  fun_induction writeNumbers lead ns w with
  | case1 => rfl
  | case2 => rfl
  | case3 lead n rest w some_left w₁ failure failed =>
      have stays : w.writeAll (numbers lead (n :: rest)) = w₁ := by
        rw [numbers.eq_3 lead n rest some_left, FailStop.writeAll_cons]
        exact FailStop.writeAll_of_failed failed _
      rw [stays, failed]
  | case4 lead n rest w some_left w₁ unfailed ih =>
      rw [ih, numbers.eq_3 lead n rest some_left, FailStop.writeAll_cons]

/-- A dump writes its pieces as far as the writer takes them. The answer of the last section is the
failure that the writer holds, in whichever section it has arisen. -/
theorem write_eq (m : Machine) (w : Writer) :
    write m w = ((FailStop.wrap w).writeAll (pieces m), ((FailStop.wrap w).writeAll (pieces m)).failed) := by
  simp only [write, writeNumbers_eq, pieces, FailStop.writeAll_append]

private theorem length_lt_of_number? {text rest : List UInt8} {n : Nat}
    (read : number? text = some (n, rest)) :
    rest.length < text.length := by
  unfold number? at read
  split at read
  case h_1 => exact absurd read nofun
  case h_2 some_digit =>
    have parts := List.takeWhile_append_dropWhile (p := isDigit) (l := text)
    have positive := List.length_pos_of_ne_nil some_digit
    rw [Option.some.injEq, Prod.mk.injEq] at read
    rw [← parts, List.length_append, ← read.2]
    omega

def readNumbers (text : List UInt8) : List Nat × List UInt8 :=
  match read : number? text with
  | none => ([], text)
  | some (n, rest) =>
    match rest with
    | 32 :: rest =>
      have := length_lt_of_number? read
      let (ns, rest) := readNumbers rest
      (n :: ns, rest)
    | rest => ([n], rest)
termination_by text.length
decreasing_by
  exact Nat.lt_of_succ_lt this

def readSection? (lead : UInt8) : List UInt8 → Option (List Nat × List UInt8)
  | [] => none
  | c :: rest => if c = lead then some (readNumbers rest) else none

/-- The cells of a tape of the given size; those that are not shown are 0. -/
def padded (size : Nat) (cells : List UInt8) : List UInt8 :=
  cells ++ List.replicate (size - cells.length) 0

/-- Reads a dump of a machine whose tape has the given size. -/
def read? (size : Nat) (text : List UInt8) : Option View := do
  let (registers, text) ← readSection? fileSeparator text
  let (cells, text) ← readSection? groupSeparator text
  let (output, rest) ← readSection? groupSeparator text
  match registers, rest with
  | [pc, state, pointer], [] =>
    (RunState.ofInt? state).map fun state =>
      ⟨pc, state, pointer, padded size (cells.map Nat.toUInt8), output.map Nat.toUInt8⟩
  | _, _ => none

/-- Whether numbers end where a text goes on so. -/
def Ends (rest : List UInt8) : Prop := ∀ c ∈ rest.head?, isDigit c = false ∧ c ≠ 32

section Read

variable {n : Nat} {front rest : List UInt8}

private theorem ends_nil : Ends [] := nofun

private theorem ends_section (ns : List Nat) (rest : List UInt8) :
    Ends ((numbers [groupSeparator] ns).flatten ++ rest) := by
  intro c first
  have lead : c = groupSeparator := by
    cases ns with
    | nil => simpa [numbers] using first.symm
    | cons n ns => cases ns <;> simpa [numbers] using first.symm
  subst lead
  exact ⟨by decide, by decide⟩

private theorem readNumbers_of_ends (ends : Ends rest) : readNumbers rest = ([], rest) := by
  have no_number : number? rest = none := by
    cases rest with
    | nil => rfl
    | cons c rest =>
        have other := (ends c rfl).1
        simp [number?, other]
  rw [readNumbers]
  split
  case h_1 => rfl
  case h_2 some_number => exact absurd some_number (by rw [no_number]; nofun)

private theorem readNumbers_of_last (read : number? front = some (n, rest)) (ends : Ends rest) :
    readNumbers front = ([n], rest) := by
  rw [readNumbers]
  split
  case h_1 none => exact absurd none (by rw [read]; nofun)
  case h_2 n' rest' read' =>
    rw [read, Option.some.injEq, Prod.mk.injEq] at read'
    obtain ⟨rfl, rfl⟩ := read'
    split
    case h_1 => exact absurd rfl (ends 32 rfl).2
    case h_2 => rfl

private theorem readNumbers_of_more (read : number? front = some (n, 32 :: rest)) :
    readNumbers front = (n :: (readNumbers rest).1, (readNumbers rest).2) := by
  rw [readNumbers]
  split
  case h_1 none => exact absurd none (by rw [read]; nofun)
  case h_2 n' rest' read' =>
    rw [read, Option.some.injEq, Prod.mk.injEq] at read'
    obtain ⟨rfl, rfl⟩ := read'
    rfl

private theorem readNumbers_numbers (ns : List Nat) (ends : Ends rest) :
    readNumbers ((numbers [] ns).flatten ++ rest) = (ns, rest) := by
  induction ns with
  | nil => exact readNumbers_of_ends ends
  | cons n ns ih =>
      cases ns with
      | nil =>
          have number := Text.number?_decimal_append n fun c first => (ends c first).1
          simpa [numbers] using readNumbers_of_last number ends
      | cons n' ns =>
          have number := Text.number?_decimal_append n
            (Text.ends_at (c := 32) rfl ((numbers [] (n' :: ns)).flatten ++ rest))
          have more := readNumbers_of_more number
          rw [ih] at more
          simpa [numbers] using more

private theorem flatten_numbers (lead : List UInt8) (ns : List Nat) :
    (numbers lead ns).flatten = lead ++ (numbers [] ns).flatten := by
  cases ns with
  | nil => simp [numbers]
  | cons n ns => cases ns <;> simp [numbers]

private theorem readSection?_numbers (lead : UInt8) (ns : List Nat) (ends : Ends rest) :
    readSection? lead ((numbers [lead] ns).flatten ++ rest) = some (ns, rest) := by
  rw [flatten_numbers, List.append_assoc, List.singleton_append, readSection?, if_pos rfl,
    readNumbers_numbers ns ends]

private theorem padded_trimmed (cells : List UInt8) :
    padded cells.length (trimmed cells) = cells := by
  have parts : trimmed cells ++ cells.rtakeWhile (· = 0) = cells := List.rdropWhile_append_rtakeWhile
  have zeros : cells.rtakeWhile (· = 0) =
      List.replicate (cells.rtakeWhile (· = 0)).length (0 : UInt8) := by
    apply List.eq_replicate_of_mem
    intro c member
    simpa using List.mem_rtakeWhile_imp member
  have missing : cells.length - (trimmed cells).length = (cells.rtakeWhile (· = 0)).length := by
    have lengths := congrArg List.length parts
    rw [List.length_append] at lengths
    omega
  rw [padded, missing, ← zeros, parts]

private theorem map_toUInt8_toNat (bytes : List UInt8) :
    (bytes.map UInt8.toNat).map Nat.toUInt8 = bytes := by
  rw [List.map_map]
  apply List.map_id''
  intro c
  exact UInt8.ofNat_toNat

theorem text_eq (m : Machine) : text m = (pieces m).flatten := by
  obtain ⟨accepted, written, done⟩ := FailStop.writeAll_unlimited #[] (.device "") (pieces m)
  rw [text, write_eq, FailStop.wrap, FailStop.ofSink, Sink.unlimited, done, written]
  rfl

theorem read?_text (m : Machine) : read? m.tape.size (text m) = some (view m) := by
  have sections : text m =
      (numbers [fileSeparator] [m.pc, m.state.toNat, m.tape.pointer]).flatten ++
        ((numbers [groupSeparator] ((trimmed m.tape.cells.toList).map UInt8.toNat)).flatten ++
          ((numbers [groupSeparator] (m.output.unread.map UInt8.toNat)).flatten ++ [])) := by
    simp only [text_eq, pieces, List.flatten_append, List.append_assoc, List.append_nil]
  have state : RunState.ofInt? (m.state.toNat : Int) = some m.state :=
    RunState.ofInt?_eq_some_iff.mpr rfl
  have size : m.tape.size = m.tape.cells.toList.length := Array.length_toList.symm
  simp only [sections, read?, readSection?_numbers, ends_section, ends_nil, Option.bind_eq_bind,
    Option.bind_some, state, Option.map_some, map_toUInt8_toNat, size, padded_trimmed, view]

end Read

theorem text_eq_of_view {m m' : Machine} (same : view m = view m') : text m = text m' := by
  simp only [view, View.mk.injEq] at same
  obtain ⟨pc, state, pointer, cells, output⟩ := same
  rw [text_eq, text_eq, pieces, pieces, pc, state, pointer, cells, output]

/-- Where nothing fails, the whole dump is written. It is read back, with the size of the tape, to the
registers, all cells and the unread output, so two machines with tapes of one size have the same dump if
and only if they have all of these in common. -/
theorem dump_tells_view (m : Machine) :
    (∀ sink : Sink, sink.room = none → (write m (.sink sink)).2 = none ∧
      (write m (.sink sink)).1.sink.accepted.toList = sink.accepted.toList ++ text m) ∧
    read? m.tape.size (text m) = some (view m) ∧
    ∀ m' : Machine, m'.tape.size = m.tape.size → (text m' = text m ↔ view m' = view m) := by
  refine ⟨fun sink unlimited => ?_, read?_text m, fun m' sizes => ⟨fun same => ?_, text_eq_of_view⟩⟩
  · obtain ⟨accepted, room, fault⟩ := sink
    cases unlimited
    obtain ⟨accepted', written, done⟩ := FailStop.writeAll_unlimited accepted fault (pieces m)
    rw [write_eq, FailStop.wrap, FailStop.ofSink, done, text_eq]
    exact ⟨rfl, written⟩
  · have read := read?_text m'
    rw [sizes, same, read?_text, Option.some.injEq] at read
    exact read.symm

/-- A tape with zeros in front of a cell and behind it, and one with the zero elsewhere; neither machine
has output. -/
theorem dump_tells_view_trimmed : ∃ m m' : Machine,
    m.tape.cells = #[0, 7, 0] ∧ m'.tape.cells = #[7, 0, 0] ∧ m'.tape.size = m.tape.size ∧
    (write m (.sink .unlimited)).2 = none ∧ text m = Text.bytes "\x1c0 0 2\x1d0 7\x1d" ∧
    read? 3 (Text.bytes "\x1c0 0 2\x1d0 7\x1d") = some (view m) ∧ text m' ≠ text m := by
  let blank := Machine.ofSizes ⟨3, 1, 1, by decide, by decide, by decide⟩
  let m : Machine := { blank with tape := ⟨#[0, 7, 0], 2, by decide⟩ }
  let m' : Machine := { blank with tape := ⟨#[7, 0, 0], 2, by decide⟩ }
  have known : text m = Text.bytes "\x1c0 0 2\x1d0 7\x1d" := by decide +kernel
  obtain ⟨written, read, tells⟩ := dump_tells_view m
  refine ⟨m, m', rfl, rfl, rfl, (written .unlimited rfl).1, known, known ▸ read, fun same => ?_⟩
  have cells := congrArg View.cells ((tells m' rfl).mp same)
  exact absurd cells (by decide)

end TapeMachine.Dump
