import TapeMachine.Stream.Fault
/-!
# Sinks

A sink accepts bytes, perhaps only a limited number of them. A write that does not fit is accepted
as far as it fits and then fails. A fail-stop writer over a sink remembers the first failed write
and forwards nothing after it, so that a text written in many pieces ends exactly where the sink
refused it.
-/

set_option autoImplicit false
set_option relaxedAutoImplicit false

namespace TapeMachine

/-- Where bytes are written to. -/
structure Sink where
  accepted : Array UInt8
  /-- How many more bytes are accepted; `none` if there is no limit. -/
  room : Option Nat
  fault : Fault
  deriving DecidableEq, Repr

namespace Sink

def unlimited : Sink := ⟨#[], none, .device ""⟩

/-- A sink that accepts `room` bytes and then fails. -/
def limited (room : Nat) (fault : Fault) : Sink := ⟨#[], some room, fault⟩

/-- Writes bytes. Answers the sink, the number of bytes accepted and the fault, if any. -/
def write (s : Sink) (bytes : List UInt8) : Sink × Nat × Option Fault :=
  match s with
  | ⟨accepted, none, fault⟩ => (⟨accepted ++ bytes, none, fault⟩, bytes.length, none)
  | ⟨accepted, some room, fault⟩ =>
    if bytes.length ≤ room then
      (⟨accepted ++ bytes, some (room - bytes.length), fault⟩, bytes.length, none)
    else (⟨accepted ++ bytes.take room, some 0, fault⟩, room, some fault)

end Sink

structure WriteFault where
  fault : Fault
  deriving DecidableEq, Repr

def WriteFault.report (f : WriteFault) : Report := f.fault.report.within "write failed"

/-- A writer that stops at the first failed write to its sink. -/
structure FailStop where
  sink : Sink
  /-- The first failed write, if any. -/
  failed : Option WriteFault
  deriving DecidableEq, Repr

/-- What a text can be written to. -/
inductive Writer where
  | sink (sink : Sink)
  | failStop (writer : FailStop)

namespace FailStop

def ofSink (sink : Sink) : FailStop := ⟨sink, none⟩

/-- A fail-stop writer over any writer. One that stops at failed writes already is taken as it is. -/
def wrap : Writer → FailStop
  | .sink sink => .ofSink sink
  | .failStop writer => writer

/-- Writes bytes unless a write has failed before. Answers the writer and the number of bytes
accepted. -/
def write (w : FailStop) (bytes : List UInt8) : FailStop × Nat :=
  match w with
  | ⟨sink, some failure⟩ => (⟨sink, some failure⟩, 0)
  | ⟨sink, none⟩ =>
    match sink.write bytes with
    | (sink, accepted, fault) => (⟨sink, fault.map (⟨·⟩)⟩, accepted)

/-- Writes the pieces of a text one after another. -/
def writeAll (w : FailStop) : List (List UInt8) → FailStop
  | [] => w
  | piece :: rest => (w.write piece).1.writeAll rest

end FailStop

end TapeMachine
