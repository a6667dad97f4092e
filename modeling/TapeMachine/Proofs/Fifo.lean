import TapeMachine.Proofs.Queue
import TapeMachine.Proofs.Requests
/-!
# Queues are first in, first out

A queue as its user sees it is a list of bytes and a bound on its length. The storage behind it, the
cursors and the moving of unread bytes to the start cannot be seen: every sequence of operations gives
the same answers on both. Each operation but a reset keeps the account of what has gone in and out, so
the bytes read and those still unread are the bytes accepted, in order.
-/

set_option autoImplicit false
set_option relaxedAutoImplicit false

namespace TapeMachine

namespace Buffer.Operation

def performAll {σ : Type} (perform : Operation → σ → σ × Answer) :
    List Operation → σ → σ × List Answer
  | [], s => (s, [])
  | op :: rest, s =>
    let first := perform op s
    let later := performAll perform rest first.1
    (later.1, first.2 :: later.2)

/-- The bytes that an operation has put into the queue, by its answer. -/
def accepts : Operation → Answer → List UInt8
  | .append c, .done => [c]
  | .appendAll bytes, .done => bytes
  | .write bytes, .wrote count _ => bytes.take count
  | _, _ => []

/-- The bytes that an operation has taken from the queue, by its answer. -/
def takes : Operation → Answer → List UInt8
  | .next, .byte (some c) => [c]
  | .readByte, .byte (some c) => [c]
  | .read _, .bytes (some content) => content
  | .drain, .bytes (some content) => content
  | _, _ => []

def acceptedBy (ops : List Operation) (answers : List Answer) : List UInt8 :=
  (List.zipWith accepts ops answers).flatten

def takenBy (ops : List Operation) (answers : List Answer) : List UInt8 :=
  (List.zipWith takes ops answers).flatten

end Buffer.Operation

/-- A queue without its storage: bytes, oldest first, and how many there may be. -/
@[ext]
structure Fifo where
  capacity : Nat
  content : List UInt8
  within : content.length ≤ capacity

namespace Fifo

def empty (capacity : Nat) : Fifo := ⟨capacity, [], Nat.zero_le _⟩

def free (q : Fifo) : Nat := q.capacity - q.content.length

private theorem length_added (q : Fifo) (bytes : List UInt8) :
    (q.content ++ bytes.take q.free).length ≤ q.capacity := by
  have within := q.within
  simp only [List.length_append, List.length_take, free]
  omega

def add (q : Fifo) (bytes : List UInt8) : Fifo :=
  ⟨q.capacity, q.content ++ bytes.take q.free, q.length_added bytes⟩

private theorem length_removed (q : Fifo) (count : Nat) :
    (q.content.drop count).length ≤ q.capacity := by
  have within := q.within
  rw [List.length_drop]
  omega

def remove (q : Fifo) (count : Nat) : Fifo :=
  ⟨q.capacity, q.content.drop count, q.length_removed count⟩

def refusal (q : Fifo) (count : Nat) : Buffer.Full := ⟨q.capacity, q.content.length, count⟩

open Buffer (Operation)

/-- What an operation on a queue is meant to do. -/
def perform : Operation → Fifo → Fifo × Buffer.Answer
  | .append c, q =>
    if q.content.length < q.capacity then (q.add [c], .done) else (q, .refused (q.refusal 1))
  | .appendAll bytes, q =>
    if q.content.length + bytes.length ≤ q.capacity then (q.add bytes, .done)
    else (q, .refused (q.refusal bytes.length))
  | .write bytes, q =>
    let count := min bytes.length q.free
    (q.add bytes, .wrote count
      (if count < bytes.length then some ((q.add bytes).refusal (bytes.length - count)) else none))
  | .next, q => (q.remove 1, .byte q.content.head?)
  | .readByte, q => (q.remove 1, .byte q.content.head?)
  | .read count, q =>
    if q.content = [] ∧ count ≠ 0 then (q, .bytes none)
    else (q.remove count, .bytes (some (q.content.take count)))
  | .drain, q => (q.remove q.content.length, .bytes (some q.content))
  | .unread, q => (q, .bytes (some q.content))
  | .reset, q => (empty q.capacity, .done)
  | .capacity, q => (q, .number q.capacity)
  | .length, q => (q, .number q.content.length)
  | .hasUnread, q => (q, .flag (!q.content.isEmpty))

end Fifo

namespace Buffer

variable {b b' : Buffer}

/-- A queue as its user sees it. -/
def toFifo (b : Buffer) : Fifo :=
  ⟨b.capacity, b.unread, Nat.le_trans (Nat.le_of_eq b.length_unread) b.length_le_capacity⟩

@[simp]
theorem capacity_toFifo (b : Buffer) : b.toFifo.capacity = b.capacity := rfl

@[simp]
theorem content_toFifo (b : Buffer) : b.toFifo.content = b.unread := rfl

private theorem free_toFifo (b : Buffer) : b.toFifo.free = b.capacity - b.length := by
  simp [Fifo.free]

private theorem refusal_toFifo (b : Buffer) (count : Nat) :
    b.toFifo.refusal count = b.full count := by
  simp [Fifo.refusal, full]

private theorem toFifo_eq_add {bytes : List UInt8} (capacity : b'.capacity = b.capacity)
    (unread : b'.unread = b.unread ++ bytes.take (b.capacity - b.length)) :
    b'.toFifo = b.toFifo.add bytes := by
  apply Fifo.ext
  · exact capacity
  · simpa [Fifo.add, free_toFifo] using unread

private theorem toFifo_eq_remove {count : Nat} (capacity : b'.capacity = b.capacity)
    (unread : b'.unread = b.unread.drop count) : b'.toFifo = b.toFifo.remove count :=
  Fifo.ext capacity unread

private theorem perform_append (b : Buffer) (c : UInt8) :
    Fifo.perform ((.append c)) b.toFifo =
      (((Operation.append c).perform b).1.toFifo, ((Operation.append c).perform b).2) := by
  by_cases room : b.length < b.capacity
  · obtain ⟨b', appended, unread, capacity⟩ := append_of_room c room
    have all : [c].take (b.capacity - b.length) = [c] := by
      apply List.take_of_length_le
      simp only [List.length_singleton]
      omega
    have added : b'.toFifo = b.toFifo.add [c] := toFifo_eq_add capacity (by rw [all, unread])
    simp [Fifo.perform, Operation.perform, appended, room, added]
  · have refused := append_of_full c (Nat.le_of_not_lt room)
    simp [Fifo.perform, Operation.perform, refused, room, refusal_toFifo]

private theorem perform_appendAll (b : Buffer) (bytes : List UInt8) :
    Fifo.perform ((.appendAll bytes)) b.toFifo =
      (((Operation.appendAll bytes).perform b).1.toFifo,
        ((Operation.appendAll bytes).perform b).2) := by
  have within := b.length_le_capacity
  by_cases room : b.length + bytes.length ≤ b.capacity
  · have enough : bytes.length ≤ b.capacity - b.length := by omega
    obtain ⟨b', appended, unread, capacity⟩ := appendAll_of_room enough
    have added : b'.toFifo = b.toFifo.add bytes :=
      toFifo_eq_add capacity (by rw [List.take_of_length_le enough, unread])
    simp [Fifo.perform, Operation.perform, appended, room, added]
  · have short : b.capacity - b.length < bytes.length := by omega
    simp [Fifo.perform, Operation.perform, appendAll_of_short short, room, refusal_toFifo]

private theorem perform_write (b : Buffer) (bytes : List UInt8) :
    Fifo.perform ((.write bytes)) b.toFifo =
      (((Operation.write bytes).perform b).1.toFifo, ((Operation.write bytes).perform b).2) := by
  obtain ⟨b', written, unread, capacity⟩ := b.write_eq bytes
  have added : b'.toFifo = b.toFifo.add bytes := toFifo_eq_add capacity unread
  simp only [Fifo.perform, Operation.perform, written, added, free_toFifo]
  by_cases short : b.capacity - b.length < bytes.length
  · have count : min bytes.length (b.capacity - b.length) = b.capacity - b.length := by omega
    simp only [count, if_pos short, ← added, refusal_toFifo]
  · have count : min bytes.length (b.capacity - b.length) = bytes.length := by omega
    simp only [count, if_neg short, Nat.lt_irrefl, if_false]

private theorem next?_toFifo (b : Buffer) :
    b.next? = none ∧ b.toFifo.remove 1 = b.toFifo ∧ b.unread.head? = none ∨
      ∃ c b', b.next? = some (c, b') ∧ b.toFifo.remove 1 = b'.toFifo ∧ b.unread.head? = some c := by
  cases unread : b.unread with
  | nil =>
      have same : b.toFifo.remove 1 = b.toFifo :=
        (toFifo_eq_remove rfl (by rw [unread, List.drop_nil])).symm
      exact Or.inl ⟨next?_of_nil unread, same, rfl⟩
  | cons c rest =>
      obtain ⟨b', next, left, capacity⟩ := next?_of_cons unread
      have removed : b'.toFifo = b.toFifo.remove 1 :=
        toFifo_eq_remove capacity (by rw [left, unread, List.drop_one, List.tail_cons])
      exact Or.inr ⟨c, b', next, removed.symm, rfl⟩

private theorem perform_read (b : Buffer) (count : Nat) :
    Fifo.perform ((.read count)) b.toFifo =
      (((Operation.read count).perform b).1.toFifo, ((Operation.read count).perform b).2) := by
  have removed : (b.take count).2.toFifo = b.toFifo.remove count :=
    toFifo_eq_remove (b.capacity_take count) (b.unread_take count)
  have left := b.hasUnread_iff
  by_cases ended : b.unread = [] ∧ count ≠ 0
  · have none_left : ¬ (b.hasUnread || count == 0) = true := by
      simp [left, ended.1, ended.2]
    simp [Fifo.perform, Operation.perform, read?, none_left, ended]
  · have some_left : (b.hasUnread || count == 0) = true := by
      rw [Bool.or_eq_true, left, beq_iff_eq]
      by_cases asked : count = 0
      · exact Or.inr asked
      · exact Or.inl fun empty => ended ⟨empty, asked⟩
    simp only [Fifo.perform, Operation.perform, read?, some_left, content_toFifo, if_neg ended, if_pos,
      ← removed]
    rfl

theorem perform_toFifo (op : Operation) (b : Buffer) :
    Fifo.perform op b.toFifo = ((op.perform b).1.toFifo, (op.perform b).2) := by
  cases op with
  | append c => exact b.perform_append c
  | appendAll bytes => exact b.perform_appendAll bytes
  | write bytes => exact b.perform_write bytes
  | next | readByte =>
      rcases b.next?_toFifo with ⟨next, removed, head⟩ | ⟨c, b', next, removed, head⟩
      · simp [Fifo.perform, Operation.perform, readByte?, next, removed, head]
      · simp [Fifo.perform, Operation.perform, readByte?, next, removed, head]
  | read count => exact b.perform_read count
  | drain =>
      have removed : b.drain.2.toFifo = b.toFifo.remove b.unread.length := by
        refine toFifo_eq_remove b.capacity_drain ?_
        rw [b.unread_drain, List.drop_length]
      simp only [Fifo.perform, content_toFifo, ← removed]
      rfl
  | unread => rfl
  | reset =>
      have emptied : b.reset.toFifo = Fifo.empty b.capacity := Fifo.ext rfl b.unread_reset
      simp only [Fifo.perform, capacity_toFifo, ← emptied]
      rfl
  | capacity => rfl
  | length => simp [Fifo.perform, Operation.perform]
  | hasUnread =>
      have left : b.hasUnread = !b.unread.isEmpty := by
        rw [Bool.eq_iff_iff, b.hasUnread_iff]
        simp
      simp [Fifo.perform, Operation.perform, left]

private theorem performAll_toFifo (ops : List Operation) (b : Buffer) :
    Operation.performAll Fifo.perform ops b.toFifo =
      ((Operation.performAll Operation.perform ops b).1.toFifo,
        (Operation.performAll Operation.perform ops b).2) := by
  induction ops generalizing b with
  | nil => rfl
  | cons op rest ih => simp [Operation.performAll, perform_toFifo, ih]

end Buffer

namespace Fifo

open Buffer (Operation)

theorem balance_perform {op : Operation} (q : Fifo) (kept : op ≠ .reset) :
    q.content ++ op.accepts (perform op q).2 = op.takes (perform op q).2 ++ (perform op q).1.content := by
  have first : q.content = q.content.head?.toList ++ q.content.drop 1 := by
    cases q.content <;> rfl
  cases op with
  | append c =>
      by_cases room : q.content.length < q.capacity
      · have all : [c].take q.free = [c] := by
          apply List.take_of_length_le
          simp only [List.length_singleton, free]
          omega
        simp [perform, room, Operation.accepts, Operation.takes, add, all]
      · simp [perform, room, Operation.accepts, Operation.takes]
  | appendAll bytes =>
      by_cases room : q.content.length + bytes.length ≤ q.capacity
      · have all : bytes.take q.free = bytes := by
          apply List.take_of_length_le
          simp only [free]
          omega
        simp [perform, room, Operation.accepts, Operation.takes, add, all]
      · simp [perform, room, Operation.accepts, Operation.takes]
  | write bytes =>
      have taken : bytes.take (min bytes.length q.free) = bytes.take q.free := by
        rw [Nat.min_comm, ← List.take_eq_take_min]
      simp [perform, Operation.accepts, Operation.takes, add, taken]
  | next | readByte =>
      cases head : q.content.head? with
      | none => simpa [perform, Operation.accepts, Operation.takes, remove, head] using first
      | some c => simpa [perform, Operation.accepts, Operation.takes, remove, head] using first
  | read count =>
      by_cases ended : q.content = [] ∧ count ≠ 0
      · simp [perform, ended, Operation.accepts, Operation.takes]
      · simp [perform, ended, Operation.accepts, Operation.takes, remove]
  | drain => simp [perform, Operation.accepts, Operation.takes, remove]
  | reset => exact absurd rfl kept
  | unread | capacity | length | hasUnread => simp [perform, Operation.accepts, Operation.takes]

private theorem capacity_perform (op : Operation) (q : Fifo) :
    (perform op q).1.capacity = q.capacity := by
  cases op with
  | append c =>
      by_cases room : q.content.length < q.capacity
      · simp [perform, room, add]
      · simp [perform, room]
  | appendAll bytes =>
      by_cases room : q.content.length + bytes.length ≤ q.capacity
      · simp [perform, room, add]
      · simp [perform, room]
  | read count =>
      by_cases ended : q.content = [] ∧ count ≠ 0
      · simp [perform, ended]
      · simp [perform, ended, remove]
  | _ => rfl

private theorem capacity_performAll (ops : List Operation) (q : Fifo) :
    (Operation.performAll perform ops q).1.capacity = q.capacity := by
  induction ops generalizing q with
  | nil => rfl
  | cons op rest ih =>
      simp only [Operation.performAll]
      rw [ih, capacity_perform]

private theorem balance_performAll (ops : List Operation) (q : Fifo) (kept : .reset ∉ ops) :
    q.content ++ Operation.acceptedBy ops (Operation.performAll perform ops q).2 =
      Operation.takenBy ops (Operation.performAll perform ops q).2 ++
        (Operation.performAll perform ops q).1.content := by
  induction ops generalizing q with
  | nil => simp [Operation.performAll, Operation.acceptedBy, Operation.takenBy]
  | cons op rest ih =>
      have here : op ≠ .reset := fun same => kept (same ▸ List.mem_cons_self)
      have now := balance_perform q here
      have later := ih (perform op q).1 fun member => kept (List.mem_cons_of_mem op member)
      simp only [Operation.acceptedBy, Operation.takenBy, Operation.performAll, List.zipWith_cons_cons,
        List.flatten_cons] at later ⊢
      rw [← List.append_assoc, now, List.append_assoc, later, List.append_assoc]

end Fifo

namespace Buffer.Operation

private theorem performAll_append {σ : Type} (perform : Operation → σ → σ × Answer)
    (before since : List Operation) (s : σ) :
    performAll perform (before ++ since) s =
      ((performAll perform since (performAll perform before s).1).1,
        (performAll perform before s).2 ++
          (performAll perform since (performAll perform before s).1).2) := by
  induction before generalizing s with
  | nil => rfl
  | cons op rest ih => simp [performAll, ih]

private theorem length_performAll {σ : Type} (perform : Operation → σ → σ × Answer)
    (ops : List Operation) (s : σ) : (performAll perform ops s).2.length = ops.length := by
  induction ops generalizing s with
  | nil => rfl
  | cons op rest ih => simp [performAll, ih]

end Buffer.Operation

namespace Buffer

private theorem content_of_reset_last {before : List Operation} {q : Fifo}
    (fresh : before = [] ∨ before.getLast? = some .reset) (start : q.content = []) :
    (Operation.performAll Fifo.perform before q).1.content = [] := by
  rcases fresh with rfl | last
  · exact start
  · obtain ⟨earlier, rfl⟩ := List.getLast?_eq_some_iff.mp last
    rw [Operation.performAll_append]
    rfl

/-- Every sequence of operations on a new queue gives the answers of a list of at most `capacity` bytes,
and leaves the bytes that are left in the list. From the last reset on, the bytes taken and the bytes
left are the bytes accepted. -/
theorem behaves_as_fifo (capacity : Nat) (ops : List Operation) :
    ∃ b answers, Operation.performAll Operation.perform ops (empty capacity) = (b, answers) ∧
      Operation.performAll Fifo.perform ops (Fifo.empty capacity) = (b.toFifo, answers) ∧
      b.capacity = capacity ∧ b.unread.length ≤ capacity ∧
      ∀ before since, ops = before ++ since →
        (before = [] ∨ before.getLast? = some .reset) → .reset ∉ since →
          Operation.takenBy since (answers.drop before.length) ++ b.unread =
            Operation.acceptedBy since (answers.drop before.length) := by
  have start : (empty capacity).toFifo = Fifo.empty capacity :=
    Fifo.ext (capacity_empty capacity) (unread_empty capacity)
  have refines := performAll_toFifo ops (empty capacity)
  rw [start] at refines
  have size := Fifo.capacity_performAll ops (Fifo.empty capacity)
  rw [refines] at size
  refine ⟨_, _, rfl, refines, size, ?_, ?_⟩
  · have within := (Operation.performAll Operation.perform ops (empty capacity)).1.toFifo.within
    rw [size] at within
    exact within
  · intro before since split fresh kept
    have emptied := content_of_reset_last (q := Fifo.empty capacity) fresh rfl
    have account := Fifo.balance_performAll since
      (Operation.performAll Fifo.perform before (Fifo.empty capacity)).1 kept
    rw [emptied, List.nil_append] at account
    rw [split, Operation.performAll_append, Prod.mk.injEq] at refines
    obtain ⟨left, answers⟩ := refines
    rw [split, ← answers, ← content_toFifo, ← left]
    rw [← Operation.length_performAll Fifo.perform before (Fifo.empty capacity), List.drop_left]
    exact account.symm

/-- More bytes than fit after a reset, and one more once a byte has been read, for which the unread ones
have to be moved. -/
theorem behaves_as_fifo_moved : ∃ b answers,
    Operation.performAll Operation.perform
      [.append 9, .reset, .write [1, 2, 3, 4], .next, .append 5, .readByte] (empty 3) = (b, answers) ∧
    b.start = 1 ∧ b.unread = [3, 5] ∧
    Operation.takenBy [.write [1, 2, 3, 4], .next, .append 5, .readByte] (answers.drop 2) ++ b.unread =
      Operation.acceptedBy [.write [1, 2, 3, 4], .next, .append 5, .readByte] (answers.drop 2) := by
  obtain ⟨b, answers, done, _, _, _, account⟩ := behaves_as_fifo 3
    [.append 9, .reset, .write [1, 2, 3, 4], .next, .append 5, .readByte]
  have view : (Operation.performAll Operation.perform
      [.append 9, .reset, .write [1, 2, 3, 4], .next, .append 5, .readByte] (empty 3)).1 = b := by rw [done]
  have start : b.start = 1 := by
    rw [← view]
    decide
  have unread : b.unread = [3, 5] := by
    rw [← view]
    decide
  exact ⟨b, answers, done, start, unread,
    account [.append 9, .reset] _ rfl (Or.inr rfl) (by decide)⟩

end Buffer

end TapeMachine
