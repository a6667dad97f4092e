import TapeMachine.Stream.Fault
/-!
# Sources

A source delivers bytes and then either ends or fails.
-/

set_option autoImplicit false
set_option relaxedAutoImplicit false

namespace TapeMachine

/-- Bytes to be read and the fault that follows them, if any. -/
structure Source where
  /-- The bytes delivered before the end or the fault. -/
  bytes : List UInt8
  /-- The fault; `none` if the source simply ends. -/
  fault : Option Fault
  deriving DecidableEq, Repr

namespace Source

def ofBytes (bytes : List UInt8) : Source := ⟨bytes, none⟩

/-- One source after another; a fault of the first hides the second. -/
def append (first second : Source) : Source :=
  match first.fault with
  | some fault => ⟨first.bytes, some fault⟩
  | none => ⟨first.bytes ++ second.bytes, second.fault⟩

def readAll (s : Source) : Except Fault (List UInt8) :=
  match s.fault with
  | some fault => .error fault
  | none => .ok s.bytes

end Source

end TapeMachine
