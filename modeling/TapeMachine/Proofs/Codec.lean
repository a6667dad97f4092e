import TapeMachine.Image.Codec
import TapeMachine.Proofs.Encoding
/-!
# Encoded images

An image is read from its encoding as it was, whatever follows the encoding, except that a queue
without bytes is not written and so is read as absent.
-/

set_option autoImplicit false
set_option relaxedAutoImplicit false

namespace TapeMachine

namespace Image

open TapeMachine.Cbor

/-- The byte fields of an image have lengths that fit into a signed word of 64 bits. -/
structure Fits (img : Image) : Prop where
  program : (img.program.getD []).length < 0x8000000000000000
  cells : (img.cells.getD []).length < 0x8000000000000000
  input : (img.input.getD []).length < 0x8000000000000000
  output : (img.output.getD []).length < 0x8000000000000000

/-- The image with empty queues absent. -/
def normal (img : Image) : Image :=
  { img with input := field (img.input.getD []), output := field (img.output.getD []) }

def fieldItem : Option (List UInt8) → Item
  | none => .simple 22
  | some content => .bytes content

private def wordWritten (n : Int64) : Written where
  bytes := encodeInteger n.toInt
  item := .ofInt n.toInt
  reads := by
    have low := n.le_toInt
    have high := n.toInt_lt
    exact reads_integer (by omega) (by omega)

private def keyWritten (key : Nat) (small : key < 24) : Written where
  bytes := Head.write .unsigned key
  item := .unsigned key
  reads := reads_unsigned (Nat.lt_trans small (by decide))

private def fieldWritten (content : Option (List UInt8))
    (small : (content.getD []).length < 0x8000000000000000) : Written where
  bytes := encodeField content
  item := fieldItem content
  reads := by
    cases content with
    | none => exact reads_null
    | some content => exact reads_bytes small

private theorem word_ofInt (n : Int64) : word (.ofInt n.toInt) = .ok n := by
  have low := n.le_toInt
  have high := n.toInt_lt
  have known : Item.toInteger (-0x8000000000000000) 0x7FFFFFFFFFFFFFFF (.ofInt n.toInt) =
      .ok (some n.toInt) := toInteger_ofInt (by omega) (by omega)
  rw [word, known]
  simp

private theorem toBytes_fieldItem (content : Option (List UInt8)) :
    (fieldItem content).toBytes = .ok content := by
  cases content <;> rfl

private def queueMember (key : Written) (content : Option (List UInt8))
    (small : (content.getD []).length < 0x8000000000000000) : List (Written × Written) :=
  if content.getD [] = [] then [] else [(key, fieldWritten content small)]

private def members (img : Image) (fits : img.Fits) : List (Written × Written) :=
  [(keyWritten 1 (by decide), fieldWritten img.program fits.program),
    (keyWritten 2 (by decide), wordWritten img.pc), (keyWritten 3 (by decide), wordWritten img.state),
    (keyWritten 4 (by decide), wordWritten img.pointer),
    (keyWritten 5 (by decide), fieldWritten img.cells fits.cells)] ++
  queueMember (keyWritten 6 (by decide)) img.input fits.input ++
  queueMember (keyWritten 7 (by decide)) img.output fits.output ++
  [(keyWritten 8 (by decide), wordWritten img.inputSize),
    (keyWritten 9 (by decide), wordWritten img.outputSize),
    (keyWritten 10 (by decide), wordWritten img.count)]

private theorem queueEntry_eq (key : Nat) (known : key < 24) (content : Option (List UInt8))
    (small : (content.getD []).length < 0x8000000000000000) :
    (queueEntry key content).map (fun e => Head.write .unsigned e.1 ++ e.2) =
      (queueMember (keyWritten key known) content small).map fun e => e.1.bytes ++ e.2.bytes := by
  cases content with
  | none => rfl
  | some content => cases content <;> rfl

private theorem entries_eq (img : Image) (fits : img.Fits) :
    img.entries.map (fun e => Head.write .unsigned e.1 ++ e.2) =
      (members img fits).map fun e => e.1.bytes ++ e.2.bytes := by
  simp only [entries, members, List.map_append,
    queueEntry_eq 6 (by decide) img.input fits.input,
    queueEntry_eq 7 (by decide) img.output fits.output]
  rfl

private theorem field_of_ne_nil {content : Option (List UInt8)} (some_left : content.getD [] ≠ []) :
    field (content.getD []) = content := by
  cases content with
  | none => exact absurd rfl some_left
  | some content =>
      have shape : content ≠ [] := some_left
      simp [field, shape]

private theorem readAll_members (img : Image) (fits : img.Fits) :
    let d := Draft.readAll ⟨blank, [], none⟩
      ((members img fits).flatMap fun e => [e.1.item, e.2.item])
    d.image = img.normal ∧ d.misfit = none := by
  obtain ⟨program, pc, state, pointer, cells, input, output, inputSize, outputSize, count⟩ := img
  have empty : field [] = none := rfl
  by_cases noInput : input.getD [] = [] <;> by_cases noOutput : output.getD [] = []
  all_goals
    simp [members, queueMember, normal, noInput, noOutput, empty, field_of_ne_nil, Draft.readAll,
      Draft.read, Image.key, setField?, keyWritten, fieldWritten, wordWritten, word_ofInt,
      toBytes_fieldItem, blank, Except.map]

private theorem length_members (img : Image) (fits : img.Fits) : (members img fits).length ≤ 10 := by
  have short (key : Written) (content : Option (List UInt8))
      (small : (content.getD []).length < 0x8000000000000000) :
      (queueMember key content small).length ≤ 1 := by
    unfold queueMember
    split <;> simp
  have input := short (keyWritten 6 (by decide)) img.input fits.input
  have output := short (keyWritten 7 (by decide)) img.output fits.output
  simp only [members, List.length_append, List.length_cons, List.length_nil]
  omega

private theorem flatten_members (written : List (Written × Written)) :
    ((written.flatMap fun e => [e.1, e.2]).map Written.bytes).flatten =
      (written.map fun e => e.1.bytes ++ e.2.bytes).flatten ∧
    (written.flatMap fun e => [e.1, e.2]).map Written.item =
      (written.flatMap fun e => [e.1.item, e.2.item]) ∧
    (written.flatMap fun e => [e.1, e.2]).length = written.length * 2 := by
  induction written with
  | nil => exact ⟨rfl, rfl, rfl⟩
  | cons first others ih =>
      obtain ⟨bytes, items, length⟩ := ih
      refine ⟨?_, ?_, ?_⟩
      · simp [bytes]
      · simp [items]
      · simp only [List.flatMap_cons, List.length_append, List.length_cons, List.length_nil, length]
        omega

theorem reads_encode (img : Image) (fits : img.Fits) (rest : List UInt8) :
    ∃ item, Reads maxDepth (img.encode ++ rest) item rest ∧ ofItem item = .ok img.normal := by
  obtain ⟨bytes, items, length⟩ := flatten_members (members img fits)
  have few : (members img fits).length ≤ maxElements :=
    Nat.le_trans (length_members img fits) (by decide)
  have as_many : img.entries.length = (members img fits).length := by
    have same := congrArg List.length (entries_eq img fits)
    simpa using same
  have read := reads_map length few rest
  rw [bytes, ← entries_eq, ← as_many] at read
  obtain ⟨image, clean⟩ := readAll_members img fits
  refine ⟨_, read, ?_⟩
  simp only [items, ofItem, Item.bare, clean, image]

theorem decode_encode (img : Image) (fits : img.Fits) (rest : List UInt8)
    (fault : Option TapeMachine.Fault) : decode ⟨img.encode ++ rest, fault⟩ = .ok img.normal := by
  obtain ⟨item, ⟨shorter, read⟩, stands⟩ := reads_encode img fits rest
  have some_left : img.encode ++ rest ≠ [] := by
    intro nothing
    rw [nothing] at shorter
    exact absurd shorter (Nat.not_lt_zero _)
  unfold decode
  split
  case h_1 empty _ => exact absurd empty some_left
  case h_2 empty _ => exact absurd empty some_left
  case h_3 =>
    rw [Item.read, read]
    simp only [stands]

theorem normal_eq (img : Image) : img.normal = { img with
    input := if img.input = some [] then none else img.input
    output := if img.output = some [] then none else img.output } := by
  have shape (content : Option (List UInt8)) :
      field (content.getD []) = if content = some [] then none else content := by
    rcases content with _ | _ | _ <;> rfl
  rw [normal, shape, shape]

private theorem queueEntry_field (key : Nat) (content : Option (List UInt8)) :
    queueEntry key (field (content.getD [])) = queueEntry key content := by
  rcases content with _ | _ | _ <;> rfl

@[simp]
theorem encode_normal (img : Image) : img.normal.encode = img.encode := by
  have same : img.normal.entries = img.entries := by
    simp only [entries, normal, queueEntry_field]
  rw [encode, encode, same]

theorem encode_append_inj {img other : Image} (fits : img.Fits) (small : other.Fits)
    {rest rest' : List UInt8} (same : other.encode ++ rest' = img.encode ++ rest) :
    other.normal = img.normal ∧ rest' = rest := by
  have read := decode_encode img fits rest none
  have read' := decode_encode other small rest' none
  rw [same, read, Except.ok.injEq] at read'
  have bytes : other.encode = img.encode := by
    rw [← encode_normal other, ← read', encode_normal]
  rw [bytes] at same
  exact ⟨read'.symm, List.append_cancel_left same⟩

/-- An image is read from its encoding, whatever follows, except that empty queues are absent. What
has been read is written as the same bytes, and images are written alike only if they agree in
everything else. -/
theorem decode_encode_append (img : Image) (fits : img.Fits) (rest : List UInt8)
    (fault : Option TapeMachine.Fault) :
    ∃ back, decode ⟨img.encode ++ rest, fault⟩ = .ok back ∧
      back = { img with
        input := if img.input = some [] then none else img.input
        output := if img.output = some [] then none else img.output } ∧
      back.encode = img.encode ∧
      ∀ other : Image, other.Fits → (other.encode = img.encode ↔ other.normal = img.normal) := by
  refine ⟨img.normal, decode_encode img fits rest fault, normal_eq img, encode_normal img,
    fun other small => ⟨fun same => ?_, fun same => ?_⟩⟩
  · exact (encode_append_inj fits small (congrArg (· ++ rest) same)).1
  · rw [← encode_normal other, same, encode_normal]

/-- Numbers of both signs and at the ends of their range, a missing program beside a tape without cells,
and a queue that is present but empty. -/
theorem decode_encode_append_signed :
    let img : Image := ⟨none, -1, 0x7FFFFFFFFFFFFFFF, -0x8000000000000000, some [], some [], some [0],
      23, 24, -25⟩
    img.Fits ∧ decode ⟨img.encode ++ [0xFF], none⟩ = .ok { img with input := none } ∧
      ({ img with input := none } : Image).encode = img.encode := by
  intro img
  have fits : img.Fits := ⟨by decide, by decide, by decide, by decide⟩
  obtain ⟨back, read, same, again, _⟩ := decode_encode_append img fits [0xFF] none
  have shape : back = { img with input := none } := same
  rw [shape] at read again
  exact ⟨fits, read, again⟩

end Image

end TapeMachine
