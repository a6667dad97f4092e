import TapeMachine.Toml.Statement
/-!
# Tables of settings files

A table holds a node for each of its keys. Of an array of tables only the last one can be reached
by a later statement, so only that one is kept; other arrays are not looked into.
-/

set_option autoImplicit false
set_option relaxedAutoImplicit false

namespace TapeMachine.Toml

inductive Node where
  | string (s : String)
  | integer (n : Int)
  /-- A value that no setting can be. -/
  | other
  | table (entries : List (String × Node))
  /-- An array of tables, by the last of them. -/
  | tables (last : List (String × Node))

/-- The keys of a table with their nodes, each at most once. -/
abbrev Table := List (String × Node)

namespace Table

def find? (t : Table) (key : String) : Option Node := t.lookup key

def put (t : Table) (key : String) (node : Node) : Table :=
  (key, node) :: t.filter (·.1 ≠ key)

/-- Puts a node at the end of a dotted key. Missing tables on the way are made; `none` if something
else than a table is on the way. -/
def assign? (t : Table) (key : Key) (node : Node) : Option Table :=
  match key with
  | [] => none
  | [last] => some (t.put last node)
  | part :: rest =>
    match t.find? part with
    | none => (assign? [] rest node).map fun inner => t.put part (.table inner)
    | some (.table inner) =>
      (assign? inner rest node).map fun inner => t.put part (.table inner)
    | some _ => none

end Table

mutual

/-- What a value is as a whole, whatever stands around it; `none` if a table in it goes through
something that is not a table. -/
def Value.node? : Value → Option Node
  | .string s => some (.string s)
  | .integer n => some (.integer n)
  | .other => some .other
  | .array elements => if areNodes elements then some .other else none
  | .table entries => (tableOf? [] entries).map .table

def areNodes : List Value → Bool
  | [] => true
  | value :: rest => value.node?.isSome && areNodes rest

/-- A table with further entries; a later entry at a key replaces an earlier one. -/
def tableOf? (t : Table) : List (Key × Value) → Option Table
  | [] => some t
  | (key, value) :: rest =>
    match value.node? with
    | none => none
    | some node =>
      match t.assign? key node with
      | some t => tableOf? t rest
      | none => none

end

end TapeMachine.Toml
