import TapeMachine.Proofs.Encoding
/-!
# Reading no further than needed

A data item ends where its own bytes say so. A reader that takes a value from the front of some bytes
takes it whatever comes after, and cannot tell any strict beginning of what it took from the start of
something longer: it finds the bytes too short. This holds of heads, of strings, and by induction on
the bytes of whole items.
-/

set_option autoImplicit false
set_option relaxedAutoImplicit false

namespace TapeMachine.Cbor

/-- A reader takes a value from the front of some bytes and leaves the rest of them. -/
abbrev Reader := StateT (List UInt8) (Except Fault)

variable {α β : Type}

private theorem taken_inj {value value' : α} {rest rest' : List UInt8}
    (same : (.ok (value, rest) : Except Fault (α × List UInt8)) = .ok (value', rest')) :
    value = value' ∧ rest = rest' := by
  have pair : (value, rest) = (value', rest') := Except.ok.inj same
  exact Prod.mk.inj pair

/-- A reader takes a value from exactly these bytes: it leaves what comes after them, and a strict
beginning of them is too short for it. -/
structure Takes (read : Reader α) (used : List UInt8) (value : α) : Prop where
  whole : ∀ rest, read (used ++ rest) = .ok (value, rest)
  cut : ∀ front, front <+: used → front ≠ used → read front = .error .truncated

/-- Whatever a reader takes from at most `n` bytes, it takes from exactly those that it does not
leave. -/
def Local (n : Nat) (read : Reader α) : Prop :=
  ∀ s value rest, s.length ≤ n → read s = .ok (value, rest) →
    ∃ used, used ++ rest = s ∧ Takes read used value

namespace Reader

private theorem bind_ok {read : Reader α} {s rest : List UInt8} {value : α}
    (first : read s = .ok (value, rest)) (next : α → Reader β) :
    (read >>= next) s = next value rest := by
  show (read s >>= fun taken => next taken.1 taken.2) = next value rest
  rw [first]
  rfl

private theorem bind_error {read : Reader α} {s : List UInt8} {fault : Fault}
    (first : read s = .error fault) (next : α → Reader β) :
    (read >>= next) s = .error fault := by
  show (read s >>= fun taken => next taken.1 taken.2) = .error fault
  rw [first]
  rfl

def byte : Reader UInt8
  | [] => .error .truncated
  | first :: rest => .ok (first, rest)

def exactly (length : Nat) : Reader (List UInt8) := fun s =>
  if (s.take length).length < length then .error .truncated
  else .ok (s.take length, s.drop length)

/-- Reads what a first byte calls for, starting with that byte. -/
def peek (next : UInt8 → Reader α) : Reader α
  | [] => .error .truncated
  | first :: after => next first (first :: after)

end Reader

private theorem takes_pure (value : α) : Takes (pure value : Reader α) [] value where
  whole _ := rfl
  cut _ before shorter := absurd (List.prefix_nil.mp before) shorter

private theorem takes_byte (first : UInt8) : Takes Reader.byte [first] first where
  whole _ := rfl
  cut front before shorter := by
    cases front with
    | nil => rfl
    | cons other after =>
        have nothing_after : after.length = 0 := by
          have bound := before.length_le
          simp only [List.length_cons, List.length_nil] at bound
          omega
        exact absurd (before.eq_of_length (by simp [nothing_after])) shorter

private theorem takes_exactly (used : List UInt8) : Takes (Reader.exactly used.length) used used where
  whole rest := by
    have front : (used ++ rest).take used.length = used := List.take_left
    have left : (used ++ rest).drop used.length = rest := List.drop_left
    simp only [Reader.exactly, front, left, Nat.lt_irrefl, if_false]
  cut front before shorter := by
    have fewer : front.length < used.length := by
      apply Nat.lt_of_le_of_ne before.length_le
      intro same
      exact shorter (before.eq_of_length same)
    have short : (front.take used.length).length < used.length := by
      rw [List.length_take]
      omega
    simp only [Reader.exactly, short, if_true]

theorem Takes.bind {read : Reader α} {next : α → Reader β} {used more : List UInt8} {a : α} {b : β}
    (first : Takes read used a) (second : Takes (next a) more b) :
    Takes (read >>= next) (used ++ more) b where
  whole rest := by
    rw [List.append_assoc, Reader.bind_ok (first.whole (more ++ rest)), second.whole rest]
  cut front before shorter := by
    obtain ⟨lost, split⟩ := before
    rcases List.append_eq_append_iff.mp split with ⟨left, inside, -⟩ | ⟨part, split, behind⟩
    · by_cases all : front = used
      · have start : read front = .ok (a, []) := by
          rw [all]
          simpa using first.whole []
        rw [Reader.bind_ok start]
        apply second.cut [] List.nil_prefix
        intro nothing
        rw [← nothing, List.append_nil] at shorter
        exact shorter all
      · exact Reader.bind_error (first.cut front ⟨left, inside.symm⟩ all) next
    · rw [split, Reader.bind_ok (first.whole part)]
      apply second.cut part ⟨lost, behind.symm⟩
      intro all
      rw [split, all] at shorter
      exact shorter rfl

namespace Local

theorem mono {read : Reader α} {m n : Nat} (inside : Local n read) (fewer : m ≤ n) :
    Local m read := by
  intro s value rest short done
  exact inside s value rest (Nat.le_trans short fewer) done

private theorem done (n : Nat) (value : α) : Local n (pure value : Reader α) := by
  intro s taken rest _ result
  obtain ⟨rfl, rfl⟩ : value = taken ∧ s = rest := taken_inj result
  exact ⟨[], rfl, takes_pure value⟩

private theorem fails (n : Nat) (fault : Fault) : Local n (throw fault : Reader α) := by
  intro s taken rest _ result
  exact absurd result nofun

private theorem byte (n : Nat) : Local n Reader.byte := by
  intro s value rest _ result
  cases s with
  | nil => exact absurd result nofun
  | cons first after =>
      obtain ⟨rfl, rfl⟩ : first = value ∧ after = rest := taken_inj result
      exact ⟨[first], rfl, takes_byte first⟩

private theorem exactly (n length : Nat) : Local n (Reader.exactly length) := by
  intro s value rest _ result
  unfold Reader.exactly at result
  split at result
  case isTrue => exact absurd result nofun
  case isFalse enough =>
      obtain ⟨rfl, rfl⟩ : s.take length = value ∧ s.drop length = rest := taken_inj result
      have as_many : (s.take length).length = length := by
        have bound := List.length_take_le length s
        omega
      have takes := takes_exactly (s.take length)
      rw [as_many] at takes
      exact ⟨s.take length, List.take_append_drop length s, takes⟩

private theorem bind {read : Reader α} {next : α → Reader β} {n : Nat} (first : Local n read)
    (second : ∀ s a rest, s.length ≤ n → read s = .ok (a, rest) → Local rest.length (next a)) :
    Local n (read >>= next) := by
  intro s b rest short result
  cases start : read s with
  | error fault =>
      rw [Reader.bind_error start] at result
      exact absurd result nofun
  | ok taken =>
      obtain ⟨a, middle⟩ := taken
      rw [Reader.bind_ok start] at result
      obtain ⟨used, split, takes⟩ := first s a middle short start
      obtain ⟨more, split', takes'⟩ :=
        second s a middle short start middle b rest (Nat.le_refl _) result
      refine ⟨used ++ more, ?_, takes.bind takes'⟩
      rw [List.append_assoc, split', split]

private theorem map {read : Reader α} {n : Nat} (inside : Local n read) (f : α → β) :
    Local n (read >>= fun a => pure (f a)) := by
  apply inside.bind
  intro s a rest _ _
  exact done _ (f a)

private theorem peek {next : UInt8 → Reader α} {n : Nat} (inside : ∀ first, Local n (next first))
    (taken : ∀ first, ∃ fault, next first [] = .error fault) : Local n (Reader.peek next) := by
  intro s value rest short result
  cases s with
  | nil => exact absurd result nofun
  | cons first after =>
      obtain ⟨used, split, takes⟩ := inside first (first :: after) value rest short result
      cases used with
      | nil =>
          obtain ⟨fault, nothing⟩ := taken first
          have something := takes.whole []
          rw [List.append_nil, nothing] at something
          exact absurd something nofun
      | cons other used =>
          obtain ⟨rfl, -⟩ : other = first ∧ used ++ rest = after := List.cons.inj split
          refine ⟨other :: used, split, takes.whole, ?_⟩
          intro front before shorter
          cases front with
          | nil => rfl
          | cons head front =>
              obtain ⟨rfl, -⟩ : head = other ∧ front <+: used := List.cons_prefix_cons.mp before
              exact takes.cut (head :: front) before shorter

end Local

/-- What has been read and what is left, without the bound on what is left. -/
def plain {p : List UInt8 → Prop} (result : Except Fault (α × { rest // p rest })) :
    Except Fault (α × List UInt8) :=
  result.map fun taken => (taken.1, taken.2.val)

@[simp]
theorem plain_error {p : List UInt8 → Prop} (fault : Fault) :
    plain (.error fault : Except Fault (α × { rest // p rest })) = .error fault := rfl

@[simp]
theorem plain_ok {p : List UInt8 → Prop} (value : α) (rest : { rest // p rest }) :
    plain (.ok (value, rest)) = .ok (value, rest.val) := rfl

private theorem bound_of_plain {p : List UInt8 → Prop}
    {result : Except Fault (α × { rest // p rest })}
    {value : α} {rest : List UInt8} (read : plain result = .ok (value, rest)) : p rest := by
  cases result with
  | error fault => exact absurd read nofun
  | ok taken =>
      obtain ⟨found, left, bound⟩ := taken
      obtain ⟨-, rfl⟩ : found = value ∧ left = rest := taken_inj read
      exact bound

namespace Reader

def ofBounded {p : List UInt8 → List UInt8 → Prop}
    (read : ∀ s, Except Fault (α × { rest // p s rest })) : Reader α := fun s => plain (read s)

private theorem ofBounded_bind {p : List UInt8 → List UInt8 → Prop}
    (read : ∀ s, Except Fault (α × { rest // p s rest })) (next : α → Reader β) (s : List UInt8) :
    (ofBounded read >>= next) s =
      match read s with
      | .error fault => .error fault
      | .ok (value, rest) => next value rest.val := by
  show (plain (read s) >>= fun taken => next taken.1 taken.2) = _
  cases read s <;> rfl

private theorem peek_cons (next : UInt8 → Reader α) (first : UInt8) (after : List UInt8) :
    peek next (first :: after) = next first (first :: after) := rfl

def head : Reader Head := ofBounded Head.read

def content (length : Nat) : Reader (List UInt8) := ofBounded (readContent length)

private theorem length_le_start (s : List UInt8) : s.length ≤ s.length := Nat.le_refl _

def chunks (major : Major) (before : List (List UInt8)) : Reader (List (List UInt8)) :=
  ofBounded fun s => readChunks major before s s (length_le_start s)

def string (major : Major) (argument : Argument) : Reader (List (List UInt8)) :=
  ofBounded (readString major argument)

def item (depth : Nat) : Reader Item := ofBounded (readItem depth)

def tagged (depth : Nat) : Reader Item := ofBounded (readTagged depth)

def members (depth : Nat) (argument : Argument) (arity : Nat) : Reader (List Item) :=
  ofBounded (readMembers depth argument arity)

def items (depth : Nat) (before : List Item) (count : Nat) : Reader (List Item) :=
  ofBounded fun s => readItems depth before count s s (length_le_start s)

def untilBreak (depth arity : Nat) (before : List Item) (seen : Nat) : Reader (List Item) :=
  ofBounded fun s => readUntilBreak depth arity before seen s s (length_le_start s)

def argument (first : UInt8) : Reader Head :=
  let major := Major.ofByte first
  let info := first.toNat % 32
  if info < 24 then pure ⟨major, .number 0 info⟩
  else if info < 28 then
    exactly (Nat.pow 2 (info - 24)) >>= fun digits =>
      if major = .simple && Nat.pow 2 (info - 24) = 1 && ofBigEndian digits < 32 then throw .malformed
      else pure ⟨major, .number (Nat.pow 2 (info - 24)) (ofBigEndian digits)⟩
  else if info = 31 && Head.mayBeIndefinite major then pure ⟨major, .indefinite⟩
  else throw .malformed

private theorem head_eq : head = byte >>= argument := by
  funext s
  cases s with
  | nil => rfl
  | cons first rest =>
      rw [bind_ok (show byte (first :: rest) = .ok (first, rest) from rfl)]
      simp only [head, ofBounded, Head.read, argument]
      split
      · rfl
      split
      · split
        case isTrue short =>
          rw [bind_error (if_pos short)]
          rfl
        case isFalse enough =>
          rw [bind_ok (if_neg enough)]
          split <;> rfl
      split <;> rfl

private theorem content_eq (length : Nat) :
    content length = if 0x8000000000000000 ≤ length then throw .excessive else exactly length := by
  funext s
  simp only [content, ofBounded, readContent]
  split
  · rfl
  · simp only [exactly]
    split <;> rfl

private theorem readChunks_start (major : Major) (before : List (List UInt8))
    (start start' s : List UInt8) (bound : s.length ≤ start.length)
    (bound' : s.length ≤ start'.length) :
    plain (readChunks major before start s bound) =
      plain (readChunks major before start' s bound') := by
  induction length : s.length using Nat.strongRecOn generalizing before s with
  | ind n ih =>
      cases s with
      | nil =>
          rw [readChunks, readChunks]
          rfl
      | cons first after =>
          rw [readChunks, readChunks]
          by_cases mark : first = breakMark
          · rw [if_pos mark, if_pos mark]
            rfl
          rw [if_neg mark, if_neg mark]
          by_cases other : Major.ofByte first ≠ major
          · rw [if_pos other, if_pos other]
            rfl
          rw [if_neg other, if_neg other]
          cases Head.read (first :: after) with
          | error fault => rfl
          | ok taken =>
              obtain ⟨⟨kind, argument⟩, rest, shorter⟩ := taken
              cases argument with
              | indefinite => rfl
              | number width announced =>
                  simp only
                  cases readContent announced rest with
                  | error fault => rfl
                  | ok taken =>
                      obtain ⟨chunk, rest', notLonger⟩ := taken
                      exact ih rest'.length (by omega) _ _ _ _ rfl

private theorem readItems_start (depth : Nat) (before : List Item) (count : Nat)
    (start start' s : List UInt8) (bound : s.length ≤ start.length)
    (bound' : s.length ≤ start'.length) :
    plain (readItems depth before count start s bound) =
      plain (readItems depth before count start' s bound') := by
  induction count generalizing before s with
  | zero =>
      rw [readItems, readItems]
      rfl
  | succ count ih =>
      rw [readItems, readItems]
      cases readItem depth s with
      | error fault => rfl
      | ok taken => exact ih ..

private theorem readUntilBreak_start (depth arity : Nat) (before : List Item) (seen : Nat)
    (start start' s : List UInt8) (bound : s.length ≤ start.length)
    (bound' : s.length ≤ start'.length) :
    plain (readUntilBreak depth arity before seen start s bound) =
      plain (readUntilBreak depth arity before seen start' s bound') := by
  induction length : s.length using Nat.strongRecOn generalizing before seen s with
  | ind n ih =>
      cases s with
      | nil =>
          rw [readUntilBreak, readUntilBreak]
          rfl
      | cons first after =>
          rw [readUntilBreak, readUntilBreak]
          by_cases mark : first = breakMark
          · rw [if_pos mark, if_pos mark]
            split <;> rfl
          rw [if_neg mark, if_neg mark]
          cases readItem depth (first :: after) with
          | error fault => rfl
          | ok taken =>
              obtain ⟨item, rest, shorter⟩ := taken
              by_cases many : maxElements < (seen + 1) / arity
              · simp only [many, if_true, plain_error]
              · simp only [many, if_false]
                exact ih rest.length (by omega) _ _ _ _ _ rfl

private theorem chunks_eq (major : Major) (before : List (List UInt8)) :
    chunks major before = peek fun first =>
      if first = breakMark then byte >>= fun _ => pure before.reverse
      else if Major.ofByte first ≠ major then throw .malformed
      else head >>= fun taken =>
        match taken.argument with
        | .indefinite => throw .malformed
        | .number _ length => content length >>= fun chunk => chunks major (chunk :: before) := by
  funext s
  cases s with
  | nil =>
      rw [chunks, ofBounded, readChunks]
      rfl
  | cons first after =>
      rw [chunks, ofBounded, readChunks, peek_cons]
      split
      · rfl
      split
      · rfl
      rw [head, ofBounded_bind]
      cases Head.read (first :: after) with
      | error fault => rfl
      | ok taken =>
          obtain ⟨⟨kind, argument⟩, rest, shorter⟩ := taken
          cases argument with
          | indefinite => rfl
          | number width length =>
              simp only [content, ofBounded_bind]
              cases readContent length rest with
              | error fault => rfl
              | ok taken => exact readChunks_start ..

private theorem string_eq (major : Major) (argument : Argument) :
    string major argument =
      match argument with
      | .indefinite => chunks major []
      | .number _ length => content length >>= fun chunk => pure [chunk] := by
  funext s
  cases argument with
  | indefinite => rfl
  | number width length =>
      simp only [string, ofBounded, readString, content, ofBounded_bind]
      cases readContent length s <;> rfl

private theorem items_zero (depth : Nat) (before : List Item) :
    items depth before 0 = pure before.reverse := by
  funext s
  rw [items, ofBounded, readItems]
  rfl

private theorem items_succ (depth : Nat) (before : List Item) (count : Nat) :
    items depth before (count + 1) =
      item depth >>= fun taken => items depth (taken :: before) count := by
  funext s
  rw [items, ofBounded, readItems, item, ofBounded_bind]
  cases readItem depth s with
  | error fault => rfl
  | ok taken => exact readItems_start ..

private theorem untilBreak_eq (depth arity : Nat) (before : List Item) (seen : Nat) :
    untilBreak depth arity before seen = peek fun first =>
      if first = breakMark then
        if seen % arity ≠ 0 then throw .malformed else byte >>= fun _ => pure before.reverse
      else item depth >>= fun taken =>
        if maxElements < (seen + 1) / arity then throw .excessive
        else untilBreak depth arity (taken :: before) (seen + 1) := by
  funext s
  cases s with
  | nil =>
      rw [untilBreak, ofBounded, readUntilBreak]
      rfl
  | cons first after =>
      rw [untilBreak, ofBounded, readUntilBreak, peek_cons]
      split
      · split <;> rfl
      rw [item, ofBounded_bind]
      cases readItem depth (first :: after) with
      | error fault => rfl
      | ok taken =>
          simp only
          split
          · rfl
          · exact readUntilBreak_start ..

private theorem members_eq (depth : Nat) (argument : Argument) (arity : Nat) :
    members depth argument arity =
      match depth, argument with
      | 0, _ => throw .excessive
      | depth + 1, .indefinite => untilBreak depth arity [] 0
      | depth + 1, .number _ n =>
        if maxElements < n then throw .excessive else items depth [] (n * arity) := by
  funext s
  rw [members, ofBounded, readMembers.eq_def]
  cases depth with
  | zero => rfl
  | succ depth =>
      cases argument with
      | indefinite => rfl
      | number width n =>
          simp only
          split <;> rfl

private theorem tagged_eq (depth : Nat) :
    tagged depth = peek fun first =>
      if Major.ofByte first = .tag then
        head >>= fun taken =>
          match taken.argument, depth with
          | .indefinite, _ => throw .malformed
          | .number _ _, 0 => throw .excessive
          | .number _ n, depth + 1 => tagged depth >>= fun content => pure (.tag n content)
      else item depth := by
  funext s
  cases s with
  | nil =>
      rw [tagged, ofBounded, readTagged]
      rfl
  | cons first after =>
      rw [tagged, ofBounded, readTagged.eq_def, peek_cons]
      simp only
      split
      · rw [head, ofBounded_bind]
        cases Head.read (first :: after) with
        | error fault => rfl
        | ok taken =>
            obtain ⟨⟨kind, argument⟩, rest, shorter⟩ := taken
            cases argument with
            | indefinite => rfl
            | number width n =>
                cases depth with
                | zero => rfl
                | succ depth =>
                    simp only [tagged, ofBounded_bind]
                    cases readTagged depth rest <;> rfl
      · rfl

def body (depth : Nat) (taken : Head) : Reader Item :=
  match taken.major, taken.argument with
  | .bytes, argument => string .bytes argument >>= fun chunks => pure (.bytes chunks.flatten)
  | .text, argument => string .text argument >>= fun chunks => pure (.text chunks)
  | .array, argument => members depth argument 1 >>= fun elements => pure (.array elements)
  | .map, argument => members depth argument 2 >>= fun entries => pure (.map entries)
  | .unsigned, .number _ n => pure (.unsigned n)
  | .negative, .number _ n => pure (.negative n)
  | .tag, .number _ n => tagged depth >>= fun content => pure (.tag n content)
  | .simple, .number width n => pure (if width ≤ 1 then .simple n else .float n)
  | _, .indefinite => throw .malformed

theorem item_eq (depth : Nat) : item depth = head >>= body depth := by
  funext s
  rw [item, ofBounded, readItem, head, ofBounded_bind]
  cases Head.read s with
  | error fault => rfl
  | ok taken =>
      obtain ⟨⟨major, argument⟩, rest, shorter⟩ := taken
      cases major with
      | bytes =>
          simp only [body, string, ofBounded_bind]
          cases readString .bytes argument rest <;> rfl
      | text =>
          simp only [body, string, ofBounded_bind]
          cases readString .text argument rest <;> rfl
      | array =>
          simp only [body, members, ofBounded_bind]
          cases readMembers depth argument 1 rest <;> rfl
      | map =>
          simp only [body, members, ofBounded_bind]
          cases readMembers depth argument 2 rest <;> rfl
      | tag =>
          cases argument with
          | indefinite => rfl
          | number width n =>
              simp only [body, tagged, ofBounded_bind]
              cases readTagged depth rest <;> rfl
      | unsigned => cases argument <;> rfl
      | negative => cases argument <;> rfl
      | simple => cases argument <;> rfl

end Reader

namespace Local

open Reader

private theorem head (n : Nat) : Local n Reader.head := by
  rw [head_eq]
  apply (Local.byte n).bind
  intro s first rest _ _
  simp only [argument]
  split
  · exact done _ _
  split
  · apply (Local.exactly _ _).bind
    intro s digits rest _ _
    split
    · exact fails _ _
    · exact done _ _
  split
  · exact done _ _
  · exact fails _ _

private theorem content (n length : Nat) : Local n (Reader.content length) := by
  rw [content_eq]
  split
  · exact fails n .excessive
  · exact Local.exactly n length

private theorem chunks (major : Major) (n : Nat) (before : List (List UInt8)) :
    Local n (Reader.chunks major before) := by
  induction n using Nat.strongRecOn generalizing before with
  | ind n ih =>
      rw [chunks_eq]
      apply Local.peek
      · intro first
        split
        · exact (Local.byte n).map _
        split
        · exact fails _ _
        apply (Local.head n).bind
        intro s taken rest short start
        have shorter : rest.length < s.length := bound_of_plain start
        split
        · exact fails _ _
        apply (Local.content _ _).bind
        intro s' chunk rest' short' start'
        have notLonger : rest'.length ≤ s'.length := bound_of_plain start'
        exact ih rest'.length (by omega) _
      · intro first
        split
        · exact ⟨.truncated, rfl⟩
        split
        · exact ⟨.malformed, rfl⟩
        · exact ⟨.truncated, rfl⟩

private theorem string (major : Major) (argument : Argument) (n : Nat) :
    Local n (Reader.string major argument) := by
  rw [string_eq]
  split
  · exact Local.chunks major n []
  · exact (Local.content n _).map _

section Nested

variable {n : Nat}

private theorem items (depth : Nat) (inside : Local n (Reader.item depth)) (before : List Item)
    (count : Nat) : Local n (Reader.items depth before count) := by
  induction count generalizing n before with
  | zero =>
      rw [items_zero]
      exact done n _
  | succ count ih =>
      rw [items_succ]
      apply inside.bind
      intro s taken rest short start
      have shorter : rest.length < s.length := bound_of_plain start
      exact ih (inside.mono (by omega)) _

private theorem untilBreak (depth arity : Nat) (inside : Local n (Reader.item depth))
    (before : List Item) (seen : Nat) : Local n (Reader.untilBreak depth arity before seen) := by
  induction n using Nat.strongRecOn generalizing before seen with
  | ind n ih =>
      rw [untilBreak_eq]
      apply Local.peek
      · intro first
        split
        · split
          · exact fails _ _
          · exact (Local.byte n).map _
        apply inside.bind
        intro s taken rest short start
        have shorter : rest.length < s.length := bound_of_plain start
        split
        · exact fails _ _
        · exact ih rest.length (by omega) (inside.mono (by omega)) _ _
      · intro first
        split
        · split
          · exact ⟨.malformed, rfl⟩
          · exact ⟨.truncated, rfl⟩
        · refine ⟨.truncated, Reader.bind_error ?_ _⟩
          rw [item_eq]
          rfl

private theorem members (depth : Nat) (argument : Argument) (arity : Nat)
    (inside : ∀ depth, Local n (Reader.item depth)) :
    Local n (Reader.members depth argument arity) := by
  rw [members_eq]
  split
  · exact fails _ _
  · exact Local.untilBreak _ _ (inside _) _ _
  · split
    · exact fails _ _
    · exact Local.items _ (inside _) _ _

private theorem tagged (depth : Nat) (inside : ∀ depth, Local n (Reader.item depth)) :
    Local n (Reader.tagged depth) := by
  induction depth using Nat.strongRecOn generalizing n with
  | ind depth ih =>
      rw [tagged_eq]
      apply Local.peek
      · intro first
        split
        · apply (Local.head n).bind
          intro s taken rest short start
          have shorter : rest.length < s.length := bound_of_plain start
          have inside' : ∀ depth, Local rest.length (Reader.item depth) :=
            fun depth => (inside depth).mono (by omega)
          split
          · exact fails _ _
          · exact fails _ _
          case h_3 depth' _ =>
            exact (ih depth' (Nat.lt_succ_self depth') inside').map _
        · exact inside depth
      · intro first
        split
        · exact ⟨.truncated, rfl⟩
        · refine ⟨.truncated, ?_⟩
          rw [item_eq]
          rfl

end Nested

theorem item (depth n : Nat) : Local n (Reader.item depth) := by
  induction n using Nat.strongRecOn generalizing depth with
  | ind n ih =>
      rw [item_eq]
      apply (Local.head n).bind
      intro s taken rest short start
      have shorter : rest.length < s.length := bound_of_plain start
      have inside : ∀ depth, Local rest.length (Reader.item depth) :=
        fun depth => ih rest.length (by omega) depth
      unfold body
      split
      case h_1 => exact (Local.string _ _ _).map _
      case h_2 => exact (Local.string _ _ _).map _
      case h_3 => exact (Local.members _ _ _ inside).map _
      case h_4 => exact (Local.members _ _ _ inside).map _
      case h_7 => exact (Local.tagged _ inside).map _
      case h_9 => exact fails _ _
      all_goals exact done _ _

end Local

/-- The bytes of an item are read as that item and nothing more, and no strict beginning of them is
read as anything. -/
theorem Reads.takes {depth : Nat} {used : List UInt8} {item : Item}
    (reads : Reads depth used item []) : Takes (Reader.item depth) used item := by
  obtain ⟨shorter, read⟩ := reads
  have start : Reader.item depth used = .ok (item, []) := by
    rw [Reader.item, Reader.ofBounded, read]
    rfl
  obtain ⟨all, split, takes⟩ := Local.item depth used.length used item [] (Nat.le_refl _) start
  rw [List.append_nil] at split
  rw [← split]
  exact takes

theorem Takes.readItem_cut {depth : Nat} {used front : List UInt8} {item : Item}
    (takes : Takes (Reader.item depth) used item) (before : front <+: used) (shorter : front ≠ used) :
    readItem depth front = .error .truncated := by
  have short : plain (readItem depth front) = .error .truncated := takes.cut front before shorter
  cases read : readItem depth front with
  | error fault =>
      rw [read, plain_error] at short
      rw [Except.error.inj short]
  | ok taken =>
      rw [read] at short
      exact absurd short nofun

end TapeMachine.Cbor
