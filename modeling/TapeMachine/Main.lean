import TapeMachine.Command.Invocation
/-!
# The command

Reads the files that the arguments name and the standard input, runs the command on them, and writes
back what has come of it.
-/

set_option autoImplicit false
set_option relaxedAutoImplicit false

namespace TapeMachine

/-- The number of instructions after which a run is given up. -/
def Command.patience : Nat := 0x4000000000000000

def Command.settingsNames (arguments : List String) : List String :=
  match Command.readFlags arguments with
  | .ok (occurrences, _) => (Command.settingsFile? occurrences).toList
  | .error _ => []

def Command.writtenNames (o : Command.Options) : List String :=
  [o.settings.logFile, o.settings.snapshot].filter (!·.isEmpty)

/-- The files that a session reads or writes. -/
def Command.usedNames (o : Command.Options) : List String :=
  [o.origin.fileName, o.origin.snapshotName].filter (!·.isEmpty) ++ o.inputs ++
    Command.writtenNames o

def Entry.ofName? (name : String) : IO (Option Entry) := do
  try
    let path ← IO.FS.realPath name
    if ← path.isDir then return some .directory
    else return some (.file (← IO.FS.readBinFile name).toList)
  catch _ => return none

def Files.gather (files : Files) (name : String) : IO Files := do
  let parts := name.splitOn "/"
  let mut files := files
  for length in List.range parts.length do
    let name := String.intercalate "/" (parts.take (length + 1))
    match files.resolve name with
    | .error _ => pure ()
    | .ok path =>
      match ← Entry.ofName? name with
      | some entry => files := files.insert path entry
      | none => pure ()
  return files

def Files.gatherAll (files : Files) (names : List String) : IO Files :=
  names.foldlM Files.gather files

/-- Writes a file of a tree where it differs from what stood there before. -/
def Files.writeBack (before after : Files) (name : String) : IO Unit := do
  match after.resolve name with
  | .error _ => pure ()
  | .ok path =>
    match after.lookup path with
    | some (.file content) =>
      if before.lookup path ≠ some (.file content) then
        IO.FS.writeBinFile name content.toByteArray
    | _ => pure ()

end TapeMachine

open TapeMachine

/-- Runs the command. -/
def main (arguments : List String) : IO UInt32 := do
  let files ← Files.empty.gatherAll (Command.settingsNames arguments)
  let options := Command.parse files arguments
  let (used, written) :=
    match options with
    | .ok o => (Command.usedNames o, Command.writtenNames o)
    | .error _ => ([], [])
  let files ← files.gatherAll used
  let input ← (← IO.getStdin).readBinToEnd
  match Command.invoke Command.patience arguments files (.ofBytes input.toList) false with
  | none => return 1
  | some r =>
    (← IO.getStdout).write r.output.toByteArray
    (← IO.getStderr).write r.errors.toByteArray
    for name in written do
      Files.writeBack files r.files name
    return r.status.toUInt32
