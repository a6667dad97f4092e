import TapeMachine.Log
import TapeMachine.Stream.Sink
import TapeMachine.Text.Utf8
/-!
# Journals

What a run tells beside its output: the lines of its trace and the records of its log, in the order
in which they arise. The trace may be limited to a number of bytes.
-/

set_option autoImplicit false
set_option relaxedAutoImplicit false

namespace TapeMachine.Feed

inductive Note where
  | traced (text : List UInt8)
  | logged (record : Log.Record)
  deriving DecidableEq, Repr

/-- The trace and the log of a run. -/
structure Journal where
  /-- The entries, last first. -/
  notes : List Note
  /-- How many more bytes of trace are accepted; `none` if there is no limit. -/
  room : Option Nat
  fault : Fault
  deriving DecidableEq, Repr

namespace Journal

def unlimited : Journal := ⟨[], none, .device ""⟩

/-- An empty journal that accepts `room` bytes of trace. -/
def limited (room : Nat) (fault : Fault) : Journal := ⟨[], some room, fault⟩

def log (j : Journal) (record : Log.Record) : Journal := { j with notes := .logged record :: j.notes }

/-- Adds a line to the trace, given in pieces. Answers the failed write, if any. -/
def trace (j : Journal) (pieces : List (List UInt8)) : Journal × Option WriteFault :=
  let w := (FailStop.ofSink ⟨#[], j.room, j.fault⟩).writeAll pieces
  ({ j with notes := .traced w.sink.accepted.toList :: j.notes, room := w.sink.room }, w.failed)

def traceText (j : Journal) : List UInt8 :=
  (j.notes.reverse.map fun
    | .traced text => text
    | .logged _ => []).flatten

def records (j : Journal) (level : Int64) : List Log.Record :=
  j.notes.reverse.filterMap fun
    | .traced _ => none
    | .logged record => if level ≤ record.level.toInt64 then some record else none

/-- The trace and the log at a level or above as one text, in order. -/
def transcript (j : Journal) (level : Int64) : List UInt8 :=
  (j.notes.reverse.map fun
    | .traced text => text
    | .logged record =>
      if level ≤ record.level.toInt64 then Text.bytes record.textLine else []).flatten

end Journal

end TapeMachine.Feed
