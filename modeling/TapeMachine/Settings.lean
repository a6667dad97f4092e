/-!
# Settings

The settings of a run, each of which may be given on the command line, most of them also in a
settings file. A setting given later replaces one given before.
-/

set_option autoImplicit false
set_option relaxedAutoImplicit false

namespace TapeMachine

structure Settings where
  cells : Int
  input : Int
  output : Int
  frame : String
  terminator : String
  /-- The file to which the log is appended; empty if there is none. -/
  logFile : String
  logLevel : String
  /-- The file in which the machine is saved; empty if it is not. -/
  snapshot : String
  deriving DecidableEq, Repr

inductive Setting where
  | cells (n : Int)
  | input (n : Int)
  | output (n : Int)
  | frame (name : String)
  | terminator (text : String)
  | logFile (name : String)
  | logLevel (text : String)
  | snapshot (name : String)
  deriving DecidableEq, Repr

namespace Settings

/-- The settings where none is given. -/
def standard : Settings where
  cells := 32768
  input := 32768
  output := 32768
  frame := "lines"
  terminator := "."
  logFile := ""
  logLevel := "info"
  snapshot := ""

def set (s : Settings) : Setting → Settings
  | .cells n => { s with cells := n }
  | .input n => { s with input := n }
  | .output n => { s with output := n }
  | .frame name => { s with frame := name }
  | .terminator text => { s with terminator := text }
  | .logFile name => { s with logFile := name }
  | .logLevel text => { s with logLevel := text }
  | .snapshot name => { s with snapshot := name }

def setAll (s : Settings) (settings : List Setting) : Settings := settings.foldl set s

end Settings

end TapeMachine
