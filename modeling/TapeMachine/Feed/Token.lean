import TapeMachine.Stream.Fault
/-!
# Tokens

A scanner splits the input into tokens. It holds a limited number of bytes while it looks for the
end of a token, and fails if a token does not end within them.

Lines end with a line feed, which is not part of the token, nor is a carriage return before it; what
follows the last line feed is a line too, unless it is empty.
-/

set_option autoImplicit false
set_option relaxedAutoImplicit false

namespace TapeMachine.Feed

/-- What a scanner finds at the start of the input. -/
inductive Scan where
  | token (token rest : List UInt8)
  | ended
  | tooLong
  /-- The splitting gives up with a fault of its own. -/
  | failed (fault : Fault)
  deriving DecidableEq, Repr

/-- How a scanner splits input: what it finds at the start of the bytes left if it holds at most `limit`
of them. -/
abbrev Split := (limit : Nat) → (input : List UInt8) → Scan

/-- A line without a carriage return at its end. -/
def dropReturn (line : List UInt8) : List UInt8 :=
  if line.getLast? = some 13 then line.dropLast else line

def Split.lines : Split := fun limit input =>
  match input with
  | [] => .ended
  | input =>
    let (line, after) := input.span (· ≠ 10)
    if limit ≤ line.length then .tooLong else .token (dropReturn line) (after.drop 1)

def Split.bytes : Split := fun _ input =>
  match input with
  | [] => .ended
  | c :: rest => .token [c] rest

end TapeMachine.Feed
