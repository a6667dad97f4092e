import TapeMachine.Instruction
/-!
# Bracket matching

Loops are delimited by brackets. One pass over a program pairs each closing bracket with the
nearest open one before it; what is left over is a mismatch. A closing bracket is left over only
when no bracket is open, so every unopened bracket stands before every unclosed one and the
mismatches come out in the order of their offsets.
-/

set_option autoImplicit false
set_option relaxedAutoImplicit false

namespace TapeMachine

inductive Mismatch where
  | unopened
  | unclosed
  deriving DecidableEq, Repr

def Mismatch.message : Mismatch → String
  | .unopened => "unopened bracket"
  | .unclosed => "unclosed bracket"

structure BracketError where
  mismatch : Mismatch
  offset : Nat
  deriving DecidableEq, Repr

def BracketError.message (e : BracketError) : String :=
  s!"{e.mismatch.message} at offset {e.offset}"

/-- For every offset of a program, the offset of the matching bracket; `none` where there is no
bracket. -/
abbrev JumpTable := Array (Option Nat)

/-- The partner of the bracket at an offset; the offset itself where there is no bracket. -/
def JumpTable.partner (table : JumpTable) (offset : Nat) : Nat :=
  match table[offset]? with
  | some (some other) => other
  | _ => offset

namespace Brackets

/-- The matching of the brackets of a program, as far as it has been read. -/
structure Matching where
  /-- The pairs of opening and closing offsets, last closed first. -/
  pairs : List (Nat × Nat)
  /-- The offsets of closing brackets without partner, last first. -/
  unopened : List Nat
  /-- The offsets of opening brackets still open, innermost first. -/
  opened : List Nat
  deriving DecidableEq, Repr

def Matching.empty : Matching := ⟨[], [], []⟩

def Matching.read (m : Matching) (offset : Nat) (c : UInt8) : Matching :=
  match Instruction.ofByte? c with
  | some .loopStart => { m with opened := offset :: m.opened }
  | some .loopEnd =>
    match m.opened with
    | [] => { m with unopened := offset :: m.unopened }
    | start :: rest => { m with pairs := (start, offset) :: m.pairs, opened := rest }
  | _ => m

def Matching.readAll (m : Matching) (offset : Nat) : List UInt8 → Matching
  | [] => m
  | c :: rest => (m.read offset c).readAll (offset + 1) rest

def matching (program : List UInt8) : Matching := Matching.empty.readAll 0 program

def Matching.mismatches (m : Matching) : List BracketError :=
  m.unopened.reverse.map (⟨.unopened, ·⟩) ++ m.opened.reverse.map (⟨.unclosed, ·⟩)

def Matching.rejects (m : Matching) (c : UInt8) : Bool :=
  Instruction.ofByte? c == some .loopEnd && m.opened.isEmpty

/-- Whether as many mismatches have been found as are wanted; a limit that is not positive is none. -/
def enough (limit : Int) (found : Nat) : Bool := 0 < limit && limit ≤ found

/-- Reads the bytes of a program from an offset on, up to the unopened bracket that makes enough
mismatches. `found` counts the unopened brackets so far. -/
def Matching.readUntil (limit : Int) (m : Matching) (found offset : Nat) : List UInt8 → Matching
  | [] => m
  | c :: rest =>
    if m.rejects c then
      if enough limit (found + 1) then m.read offset c
      else (m.read offset c).readUntil limit (found + 1) (offset + 1) rest
    else (m.read offset c).readUntil limit found (offset + 1) rest

def unclosed (limit : Int) (found : Nat) : List Nat → List BracketError
  | [] => []
  | offset :: rest =>
    if enough limit found then [] else ⟨.unclosed, offset⟩ :: unclosed limit (found + 1) rest

def Matching.table (m : Matching) (size : Nat) : JumpTable :=
  m.pairs.foldl
    (fun table pair => (table.setIfInBounds pair.1 (some pair.2)).setIfInBounds pair.2 (some pair.1))
    (Array.replicate size none)

end Brackets

/-- The mismatches of a program in the order of their offsets, at most `limit` of them if `limit`
is positive. No more is read than is needed for them. -/
def mismatches (program : List UInt8) (limit : Int) : List BracketError :=
  let m := Brackets.Matching.empty.readUntil limit 0 0 program
  m.unopened.reverse.map (⟨.unopened, ·⟩) ++
    Brackets.unclosed limit m.unopened.length m.opened.reverse

/-- The jump table of a program, or its first mismatch. -/
def link (program : List UInt8) : Except BracketError JumpTable :=
  let m := Brackets.matching program
  match m.mismatches with
  | e :: _ => .error e
  | [] => .ok (m.table program.length)

end TapeMachine
