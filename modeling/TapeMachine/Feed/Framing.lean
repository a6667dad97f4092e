import TapeMachine.Stream.Fault
/-!
# Framing

Input is fed to a machine in tokens. A frame says which bytes stand for a token, and may end the input
or fail instead.
-/

set_option autoImplicit false
set_option relaxedAutoImplicit false

namespace TapeMachine.Feed

/-- Why nothing is fed for a token. -/
inductive FrameError where
  | inputEnded
  | failed (fault : Fault)
  deriving DecidableEq, Repr

abbrev Frame := (token : List UInt8) → Except FrameError (List UInt8)

def endOfTransmission : UInt8 := 4

namespace Frame

def lines : Frame := fun token => .ok (token ++ [10])

def raw : Frame := .ok

/-- Tokens with 0 bytes in place of a terminator. -/
def terminated (terminator : UInt8) : Frame := fun token =>
  .ok (token.map fun c => if c = terminator then 0 else c)

/-- A frame that ends the input at a token that starts with an end of transmission. -/
def untilTransmission (frame : Frame) : Frame := fun token =>
  if token.head? = some endOfTransmission then .error .inputEnded else frame token

end Frame

/-- The frames that have names. -/
inductive Framing where
  | lines
  | raw
  | terminated (terminator : UInt8)
  deriving DecidableEq, Repr

def Framing.frame : Framing → Frame
  | .lines => .lines
  | .raw => .raw
  | .terminated terminator => .terminated terminator

theorem Framing.exists_frame (framing : Framing) (token : List UInt8) :
    ∃ bytes, framing.frame token = .ok bytes := by
  cases framing <;> exact ⟨_, rfl⟩

end TapeMachine.Feed
