import TapeMachine.Toml.Table
import TapeMachine.Text.Utf8
/-!
# Settings documents

The statements of a TOML document build a tree of tables. A path may be given once, except that a
table that came to be as the parent of something else may be given its own header. What is noted
about a path for this outlives the table that it led through, when an array of tables gets a further
one.
-/

set_option autoImplicit false
set_option relaxedAutoImplicit false

namespace TapeMachine.Toml

/-- What has been noted about a path, and about the paths below it. -/
structure Marks where
  /-- Whether it has only been mentioned, as the parent of something else. -/
  mentioned : Bool
  /-- Whether it was last given an array. -/
  array : Bool
  /-- The notes about the paths below, by their next part. -/
  beneath : List (String × Marks)

def Marks.none : Marks := ⟨false, false, []⟩

/-- A table that statements add to, with the notes about its path. -/
structure Scope where
  outermost : Bool
  table : Table
  marks : Marks

namespace Scope

def empty : Scope := ⟨true, [], .none⟩

def put (s : Scope) (key : String) (node : Node) : Scope :=
  { s with table := s.table.put key node }

def marksAt (s : Scope) (key : String) : Marks := (s.marks.beneath.lookup key).getD .none

def setMarks (s : Scope) (key : String) (marks : Marks) : Scope :=
  { s with marks := { s.marks with
      beneath := (key, marks) :: s.marks.beneath.filter (·.1 ≠ key) } }

def mention (s : Scope) (key : String) (mentioned : Bool) : Scope :=
  s.setMarks key { s.marksAt key with mentioned }

def markArray (s : Scope) (key : String) (array : Bool) : Scope :=
  s.setMarks key { s.marksAt key with array }

/-- Notes whether the value of a key is an array. The note about an empty key is kept with the table
itself, unless that is the outermost one. -/
def noteArray (s : Scope) (key : String) (array : Bool) : Scope :=
  if key.isEmpty && !s.outermost then { s with marks := { s.marks with array } }
  else s.markArray key array

/-- The table at a key; of an array of tables the last one. -/
def child? (s : Scope) (key : String) : Option Scope :=
  match s.table.find? key with
  | some (.table t) | some (.tables t) => some ⟨false, t, s.marksAt key⟩
  | _ => none

def putChild (s : Scope) (key : String) (child : Scope) : Scope :=
  let node : Node :=
    match s.table.find? key with
    | some (.tables _) => .tables child.table
    | _ => .table child.table
  (s.put key node).setMarks key child.marks

/-- Puts a node at a key for good. What stands there already may only have been mentioned: it stays,
unless the key was last given an array. -/
def define (s : Scope) (key : String) (node : Node) : Option Scope :=
  let marks := s.marksAt key
  if (s.table.find? key).isNone then some (s.put key node)
  else if !marks.mentioned then none
  else
    let s := s.mention key false
    some (if marks.array then s.put key node else s)

/-- Makes sure that something stands at a key: a table that has only been mentioned, if nothing
does. -/
def ensure (s : Scope) (key : String) : Option Scope :=
  if (s.table.find? key).isNone then some ((s.mention key true).put key (.table [])) else some s

/-- Starts a table at a key that may have been mentioned before, and mentions it. -/
def startTable (s : Scope) (key : String) : Option Scope :=
  (s.mention key true).define key (.table [])

def startElement (s : Scope) (key : String) : Option Scope :=
  match s.table.find? key with
  | none | some (.tables _) => some (s.put key (.tables []))
  | some _ => none

/-- Works on the table at a path below; `prepare` readies each key on the way. -/
def descend (s : Scope) (prepare : Scope → String → Option Scope) (work : Scope → Option Scope) :
    Key → Option Scope
  | [] => work s
  | part :: rest =>
    match prepare s part with
    | none => none
    | some s =>
      match s.child? part with
      | none => none
      | some child => (child.descend prepare work rest).map (s.putChild part)

def lastPart (key : Key) : String := key.getLastD ""

mutual

/-- What the contents of a value add to a table before the value itself is put at its key; `inArray`
tells whether the value is an element of an array there. -/
def enter (s : Scope) (key : String) (inArray : Bool) : Value → Option Scope
  | .array elements => enterElements (s.noteArray key true) key elements
  | .table entries =>
    match if inArray then (s.mention key true).startElement key else s.startTable key with
    | none => none
    | some s =>
      match s.child? key with
      | none => none
      | some child => (enterEntries child entries).map (s.putChild key)
  | .string _ | .integer _ | .other => some s

def enterElements (s : Scope) (key : String) : List Value → Option Scope
  | [] => some s
  | value :: rest =>
    match enter s key true value with
    | some s => enterElements s key rest
    | none => none

def enterEntries (s : Scope) : List (Key × Value) → Option Scope
  | [] => some s
  | (key, value) :: rest =>
    let last := lastPart key
    let give := fun (s : Scope) =>
      match enter s last false value, value.node? with
      | some s, some node =>
        (s.define last node).map (·.noteArray last (value matches .array _))
      | _, _ => none
    match s.descend startTable give key.dropLast with
    | some s => enterEntries s rest
    | none => none

end

def openTable (s : Scope) (key : Key) : Option Scope :=
  let last := lastPart key
  let start := fun (s : Scope) => (s.define last (.table [])).map (·.markArray last false)
  s.descend ensure start key.dropLast

def openElement (s : Scope) (key : Key) : Option Scope :=
  let last := lastPart key
  let start := fun (s : Scope) => (s.startElement last).map (·.markArray last false)
  s.descend ensure start key.dropLast

/-- Adds statements to the outermost table; assignments belong to the table at `path`. -/
def extend (s : Scope) (path : Key) : List Statement → Option Scope
  | [] => some s
  | .assign key value :: rest =>
    match s.descend (fun s _ => some s) (·.enterEntries [(key, value)]) path with
    | some s => s.extend path rest
    | none => none
  | .table key :: rest =>
    match s.openTable key with
    | some s => s.extend key rest
    | none => none
  | .element key :: rest =>
    match s.openElement key with
    | some s => s.extend key rest
    | none => none

end Scope

mutual

def Value.paths (path : Key) : Value → List Key
  | .array elements => elementPaths path elements
  | .table entries => entryPaths path entries
  | .string _ | .integer _ | .other => []

def elementPaths (path : Key) : List Value → List Key
  | [] => []
  | value :: rest => value.paths path ++ elementPaths path rest

def entryPaths (path : Key) : List (Key × Value) → List Key
  | [] => []
  | (key, value) :: rest =>
    (path ++ key) :: value.paths (path ++ key) ++ entryPaths path rest

end

def statementPaths (path : Key) : List Statement → List Key
  | [] => []
  | .assign key value :: rest => entryPaths path [(key, value)] ++ statementPaths path rest
  | .table key :: rest => key :: statementPaths key rest
  | .element key :: rest => key :: statementPaths key rest

structure Document where
  table : Table
  /-- All paths that were given, in order. -/
  paths : List Key

namespace Document

/-- The document that statements build. -/
def ofStatements? (statements : List Statement) : Option Document :=
  (Scope.empty.extend [] statements).map fun s => ⟨s.table, statementPaths [] statements⟩

def dropMark : List UInt8 → List UInt8
  | 0xFF :: 0xFE :: rest => rest
  | 0xFE :: 0xFF :: rest => rest
  | 0xEF :: 0xBB :: 0xBF :: rest => rest
  | bytes => bytes

def ofBytes? (bytes : List UInt8) : Option Document :=
  match Text.Utf8.decode? (dropMark bytes) with
  | none => none
  | some text =>
    match parse? text with
    | some statements => ofStatements? statements
    | none => none

end Document

end TapeMachine.Toml
