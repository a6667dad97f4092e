import TapeMachine.Stream.Source
/-!
# Files

A directory tree as a value. Names are relative to its root; their parts are separated by slashes,
and every part but the last has to be a directory. The parts are looked at one after the other, and
the first one that is in the way is the reason why a name leads nowhere. A name that starts with a
slash, or that goes up from the root, leads out of the tree to places of their own.
-/

set_option autoImplicit false
set_option relaxedAutoImplicit false

namespace TapeMachine

/-- What stands at a place of the tree. -/
inductive Entry where
  | file (content : List UInt8)
  | directory
  deriving DecidableEq, Repr

/-- The parts of a name below the root of the tree. -/
abbrev Path := List String

/-- A directory tree: its entries, each at most once. The root itself is no entry. -/
structure Files where
  entries : List (Path × Entry)
  deriving DecidableEq, Repr

namespace Files

def empty : Files := ⟨[]⟩

def top : Path := ["/"]

/-- Whether a path leads up from the root, or nowhere. -/
def isAbove (path : Path) : Bool := path.all (· = "..")

/-- What stands at a path. The root, what is above it and the top are directories. -/
def lookup (files : Files) (path : Path) : Option Entry :=
  if isAbove path || path = top then some .directory else files.entries.lookup path

def insert (files : Files) (path : Path) (entry : Entry) : Files :=
  ⟨(path, entry) :: files.entries.filter (·.1 ≠ path)⟩

def parent (directory : Path) : Path :=
  if isAbove directory then directory ++ [".."]
  else if directory = top then top
  else directory.dropLast

def maxName : Nat := 4095

def maxPart : Nat := 255

def cut : List Char → List (List Char)
  | [] => [[]]
  | '/' :: rest => [] :: cut rest
  | c :: rest =>
    match cut rest with
    | [] => [[c]]
    | part :: others => (c :: part) :: others

/-- The parts of a name: what stands between its slashes. -/
def parts (name : String) : List String :=
  ((cut name.toList).filter (!·.isEmpty)).map String.ofList

/-- Whether a name can only be that of a directory. -/
def endsInSlash (name : String) : Bool := name.toList.getLast? = some '/'

def nameFault? (name : String) : Option FileReason :=
  if name.isEmpty then some .missing
  else if name.toList.contains (Char.ofNat 0) then some .badName
  else if maxName < name.utf8ByteSize then some .longName
  else none

def step (directory : Path) (part : String) : Except FileReason Path :=
  if part = "." then .ok directory
  else if part = ".." then .ok (parent directory)
  else if maxPart < part.utf8ByteSize then .error .longName
  else .ok (directory ++ [part])

def follow (files : Files) (directory : Path) : List String → Except FileReason Path
  | [] => .ok directory
  | part :: rest =>
    match step directory part with
    | .error reason => .error reason
    | .ok path =>
      match files.lookup path with
      | some .directory => files.follow path rest
      | some (.file _) => .error .notDirectory
      | none => .error .missing

def holder (files : Files) (name : String) : Except FileReason Path :=
  match nameFault? name with
  | some reason => .error reason
  | none => files.follow (if name.toList.head? = some '/' then top else []) (parts name).dropLast

/-- The path that a name stands for, whether anything stands there or not. -/
def resolve (files : Files) (name : String) : Except FileReason Path :=
  match files.holder name with
  | .error reason => .error reason
  | .ok directory => ((parts name).getLast?.map (step directory)).getD (.ok directory)

/-- What stands under a name. A name with a slash at its end is that of a directory. -/
def find (files : Files) (name : String) : Except FileReason Entry :=
  match files.resolve name with
  | .error reason => .error reason
  | .ok path =>
    match files.lookup path with
    | none => .error .missing
    | some .directory => .ok .directory
    | some (.file content) =>
      if endsInSlash name then .error .notDirectory else .ok (.file content)

/-- Opens a file. A directory can be opened, but not read. -/
def openSource (files : Files) (name : String) : Except FileFault Source :=
  match files.find name with
  | .error reason => .error ⟨.opening, name, reason⟩
  | .ok .directory => .ok ⟨[], some (.file ⟨.reading, name, .directory⟩)⟩
  | .ok (.file content) => .ok (.ofBytes content)

/-- The path that a file to be written has, which need not exist. A name with a slash at its end is
that of a directory, whether it exists or not. -/
def target (files : Files) (name : String) : Except FileReason Path :=
  match files.holder name with
  | .error reason => .error reason
  | .ok _ => if endsInSlash name then .error .directory else files.resolve name

def writable (files : Files) (name : String) : Except FileFault (Path × List UInt8) :=
  match files.target name with
  | .error reason => .error ⟨.opening, name, reason⟩
  | .ok path =>
    match files.lookup path with
    | some .directory => .error ⟨.opening, name, .directory⟩
    | some (.file content) => .ok (path, content)
    | none => .ok (path, [])

def create (files : Files) (name : String) (content : List UInt8) : Except FileFault Files :=
  match files.writable name with
  | .error fault => .error fault
  | .ok (path, _) => .ok (files.insert path (.file content))

def append (files : Files) (name : String) (content : List UInt8) : Except FileFault Files :=
  match files.writable name with
  | .error fault => .error fault
  | .ok (path, before) => .ok (files.insert path (.file (before ++ content)))

end Files

end TapeMachine
