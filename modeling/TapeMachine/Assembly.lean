import TapeMachine.Brackets
import TapeMachine.Text.Utf8
import TapeMachine.Stream.Source
/-!
# Program sources

A program is read from a named source. If its brackets do not match, the first ten mismatches are
reported with their line and column; columns count runes.
-/

set_option autoImplicit false
set_option relaxedAutoImplicit false

namespace TapeMachine.Assembly

structure Position where
  name : String
  offset : Nat
  /-- The line, from 1 on. -/
  line : Nat
  /-- The column, from 1 on. -/
  column : Nat
  deriving DecidableEq, Repr

def Position.message (p : Position) : String :=
  let name := if p.name.isEmpty then "<input>" else p.name
  s!"{name}:{p.line}:{p.column}"

def lineFeed : UInt8 := 10

def position (name : String) (source : List UInt8) (offset : Nat) : Position :=
  let before := source.take offset
  let line := (before.reverse.takeWhile (· ≠ lineFeed)).reverse
  { name, offset
    line := 1 + before.count lineFeed
    column := 1 + Text.Utf8.runeCount line }

structure Diagnostic where
  position : Position
  mismatch : Mismatch
  deriving DecidableEq, Repr

def Diagnostic.message (d : Diagnostic) : String :=
  d.position.message ++ ": " ++ d.mismatch.message

def maxDiagnostics : Int := 10

/-- The first mismatches of a source with their places. -/
def diagnose (name : String) (source : List UInt8) : List Diagnostic :=
  (mismatches source maxDiagnostics).map fun e => ⟨position name source e.offset, e.mismatch⟩

inductive Error where
  | unreadable (name : String) (fault : Fault)
  | mismatched (diagnostics : List Diagnostic)
  deriving DecidableEq

/-- The report of a source that is no program; each diagnostic is on a line of its own. -/
def Error.report : Error → Report
  | .unreadable name fault => fault.report.within s!"read {name}"
  | .mismatched diagnostics =>
    .ofCause (String.intercalate "\n" (diagnostics.map Diagnostic.message))

/-- Reads a program from a source and checks that it links. -/
def assemble (name : String) (source : Source) : Except Error (List UInt8) :=
  match source.readAll with
  | .error fault => .error (.unreadable name fault)
  | .ok program =>
    match link program with
    | .ok _ => .ok program
    | .error _ => .error (.mismatched (diagnose name program))

end TapeMachine.Assembly
