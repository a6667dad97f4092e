import TapeMachine.Report
/-!
# Faults of streams

What can stop a stream of bytes other than its end: the device below it, the file it is read from,
or the compressed frame around it.
-/

set_option autoImplicit false
set_option relaxedAutoImplicit false

namespace TapeMachine

inductive FileReason where
  /-- Neither the file nor, perhaps, its directory exists. -/
  | missing
  | directory
  | notDirectory
  | badName
  | longName
  deriving DecidableEq, Repr

def FileReason.message : FileReason → String
  | .missing => "no such file or directory"
  | .directory => "is a directory"
  | .notDirectory => "not a directory"
  | .badName => "invalid argument"
  | .longName => "file name too long"

inductive FileAccess where
  | opening
  | reading
  deriving DecidableEq, Repr

def FileAccess.word : FileAccess → String
  | .opening => "open"
  | .reading => "read"

structure FileFault where
  access : FileAccess
  name : String
  reason : FileReason
  deriving DecidableEq, Repr

def FileFault.message (f : FileFault) : String :=
  s!"{f.access.word} {f.name}: {f.reason.message}"

inductive FrameFault where
  | truncated
  /-- It does not start with the mark of a frame. -/
  | unmarked
  | unsupported
  /-- The contents do not have the size that the frame declares. -/
  | sizeMismatch
  deriving DecidableEq, Repr

def FrameFault.message : FrameFault → String
  | .truncated => "unexpected EOF"
  | .unmarked => "invalid input: magic number mismatch"
  | .unsupported => "invalid input: unsupported frame"
  | .sizeMismatch => "frame size does not match size on stream"

/-- What stops a stream before its end. -/
inductive Fault where
  /-- The device below the stream fails with a message of its own. -/
  | device (message : String)
  | file (fault : FileFault)
  | frame (fault : FrameFault)
  deriving DecidableEq, Repr

namespace Fault

def message : Fault → String
  | .device message => message
  | .file fault => fault.message
  | .frame fault => fault.message

def report (f : Fault) : Report := .ofCause f.message

end Fault

end TapeMachine
