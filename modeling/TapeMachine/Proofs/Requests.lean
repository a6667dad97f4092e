import TapeMachine.Machine.Run
import TapeMachine.Image
/-!
# Requests

Everything that can be asked of a machine, as data: the calls that move its program along, loading
and restoring, and what can be done directly to its queues and its tape. A machine is reachable if a
sequence of requests leads to it from a new machine; a refused request counts too.
-/

set_option autoImplicit false
set_option relaxedAutoImplicit false

namespace TapeMachine

/-- Something that can be asked of a queue. -/
inductive Buffer.Operation where
  | append (c : UInt8)
  | appendAll (bytes : List UInt8)
  | write (bytes : List UInt8)
  | next
  | readByte
  | read (count : Nat)
  | drain
  | unread
  | reset
  | capacity
  | length
  | hasUnread
  deriving DecidableEq, Repr

def Buffer.Operation.Adds : Buffer.Operation → Prop
  | .append _ | .appendAll _ | .write _ => True
  | _ => False

inductive Buffer.Answer where
  | done
  | refused (full : Buffer.Full)
  | wrote (count : Nat) (refusal : Option Buffer.Full)
  | byte (c : Option UInt8)
  | bytes (content : Option (List UInt8))
  | number (n : Nat)
  | flag (b : Bool)
  deriving DecidableEq

def Buffer.Operation.perform : Buffer.Operation → Buffer → Buffer × Buffer.Answer
  | .append c, b =>
    match b.append c with
    | .ok b' => (b', .done)
    | .error full => (b, .refused full)
  | .appendAll bytes, b =>
    match b.appendAll bytes with
    | .ok b' => (b', .done)
    | .error full => (b, .refused full)
  | .write bytes, b =>
    match b.write bytes with
    | (b', count, refusal) => (b', .wrote count refusal)
  | .next, b =>
    match b.next? with
    | some (c, b') => (b', .byte (some c))
    | none => (b, .byte none)
  | .readByte, b =>
    match b.readByte? with
    | some (c, b') => (b', .byte (some c))
    | none => (b, .byte none)
  | .read count, b =>
    match b.read? count with
    | some (content, b') => (b', .bytes (some content))
    | none => (b, .bytes none)
  | .drain, b =>
    match b.drain with
    | (content, b') => (b', .bytes (some content))
  | .unread, b => (b, .bytes (some b.unread))
  | .reset, b => (b.reset, .done)
  | .capacity, b => (b, .number b.capacity)
  | .length, b => (b, .number b.length)
  | .hasUnread, b => (b, .flag b.hasUnread)

inductive Tape.Operation where
  | read
  | write (value : UInt8)
  | increment
  | decrement
  | moveRight
  | moveLeft
  | reset
  deriving DecidableEq, Repr

def Tape.Operation.perform : Tape.Operation → Tape → Tape
  | .read, t => t
  | .write value, t => t.write value
  | .increment, t => t.increment
  | .decrement, t => t.decrement
  | .moveRight, t => t.moveRight
  | .moveLeft, t => t.moveLeft
  | .reset, t => t.reset

/-- The calls that move a loaded program along. Calls that run it carry the fuel they are given. -/
inductive Call where
  | appendInput (bytes : List UInt8)
  | write (bytes : List UInt8)
  | run (fuel : Nat)
  | runUpTo (fuel : Nat) (offset : Int)
  | step
  | nextOutput
  | drainOutput
  deriving DecidableEq, Repr

/-- Everything that can be asked of a machine. -/
inductive Request where
  | call (c : Call)
  | prepare (program : List UInt8)
  | restore (img : Image)
  | image
  | input (op : Buffer.Operation)
  | output (op : Buffer.Operation)
  | tape (op : Tape.Operation)
  deriving DecidableEq

/-- A request made to the machine itself and not behind its back to its queues or its tape. -/
def Request.Own : Request → Prop
  | .input _ | .output _ | .tape _ => False
  | _ => True

/-- A request that does not append to the input queue behind the back of the machine. -/
def Request.Fair : Request → Prop
  | .input op => ¬ op.Adds
  | _ => True

theorem Request.Own.fair {r : Request} (own : r.Own) : r.Fair := by
  cases r with
  | input op => exact own.elim
  | _ => trivial

inductive Answer where
  | done
  | mismatched (error : BracketError)
  | unrestored (error : RestoreError)
  | refused (full : Buffer.Full)
  | wrote (count : Nat) (refusal : Option Buffer.Full)
  | ran (waiting : Bool) (error : Option RunError)
  | reached (pc : Nat) (error : Option RunError)
  | byte (c : Option UInt8)
  | bytes (content : List UInt8)
  | image (img : Option Image)
  | queue (answer : Buffer.Answer)
  | tape (t : Tape)
  deriving DecidableEq

def Call.perform : Call → Machine → Option (Machine × Answer)
  | .appendInput bytes, m =>
    match m.appendInput bytes with
    | .ok m' => some (m', .done)
    | .error full => some (m, .refused full)
  | .write bytes, m =>
    match m.writeInput bytes with
    | (m', count, refusal) => some (m', .wrote count refusal)
  | .run fuel, m => (m.run fuel).map fun o => (o.machine, .ran o.machine.isWaiting o.error)
  | .runUpTo fuel offset, m =>
    (m.runUpTo fuel offset).map fun o => (o.machine, .reached o.machine.pc o.error)
  | .step, m => m.step.map fun o => (o.machine, .ran o.machine.isWaiting o.error)
  | .nextOutput, m =>
    match m.nextOutput? with
    | some (c, m') => some (m', .byte (some c))
    | none => some (m, .byte none)
  | .drainOutput, m =>
    match m.drainOutput with
    | (content, m') => some (m', .bytes content)

def Request.perform : Request → Machine → Option (Machine × Answer)
  | .call c, m => c.perform m
  | .prepare program, m =>
    match m.prepare program with
    | .ok m' => some (m', .done)
    | .error e => some (m, .mismatched e)
  | .restore img, m =>
    match m.restore img with
    | .ok m' => some (m', .done)
    | .error e => some (m, .unrestored e)
  | .image, m => some (m, .image m.image?)
  | .input op, m =>
    match op.perform m.input with
    | (queue, answer) => some ({ m with input := queue }, .queue answer)
  | .output op, m =>
    match op.perform m.output with
    | (queue, answer) => some ({ m with output := queue }, .queue answer)
  | .tape op, m => some ({ m with tape := op.perform m.tape }, .tape (op.perform m.tape))

namespace Machine

/-- The machine after a sequence of requests and its answers; `none` if one does not return. -/
def respond : List Request → Machine → Option (Machine × List Answer)
  | [], m => some (m, [])
  | r :: rest, m =>
    match r.perform m with
    | none => none
    | some (m, answer) =>
      match respond rest m with
      | none => none
      | some (m, answers) => some (m, answer :: answers)

/-- A sequence of requests of a kind leads from one machine to another. -/
inductive Leads (kind : Request → Prop) (start : Machine) : Machine → Prop
  | refl : Leads kind start start
  | request {m m' : Machine} {r : Request} {answer : Answer} (before : Leads kind start m)
      (allowed : kind r) (done : r.perform m = some (m', answer)) : Leads kind start m'

/-- A sequence of requests leads to the machine from a new one. -/
def Reachable (m : Machine) : Prop :=
  ∃ sizes start, create sizes = .ok start ∧ start.Leads (fun _ => True) m

theorem Reachable.of_prepare {start m : Machine} {program : List UInt8} (reachable : start.Reachable)
    (prepared : start.prepare program = .ok m) : m.Reachable := by
  obtain ⟨sizes, new, created, leads⟩ := reachable
  have done : (Request.prepare program).perform start = some (m, .done) := by
    simp only [Request.perform, prepared]
  exact ⟨sizes, new, created, leads.request trivial done⟩

theorem Leads.mono {kind kind' : Request → Prop} {start m : Machine} (leads : start.Leads kind m)
    (weaker : ∀ r, kind r → kind' r) : start.Leads kind' m := by
  induction leads with
  | refl => exact .refl
  | request _ allowed done ih => exact ih.request (weaker _ allowed) done

theorem Leads.respond {kind : Request → Prop} {start m m' : Machine} {requests : List Request}
    {answers : List Answer} (leads : start.Leads kind m) (allowed : ∀ r ∈ requests, kind r)
    (done : m.respond requests = some (m', answers)) : start.Leads kind m' := by
  induction requests generalizing m answers with
  | nil =>
      cases done
      exact leads
  | cons r rest ih =>
      simp only [Machine.respond] at done
      split at done
      case h_1 => cases done
      case h_2 m₁ answer first =>
        split at done
        case h_1 => cases done
        case h_2 m₂ others later =>
          cases done
          have next := leads.request (allowed r List.mem_cons_self) first
          exact ih next (fun other member => allowed other (List.mem_cons_of_mem r member)) later

end Machine

end TapeMachine
