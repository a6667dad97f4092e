/-!
# Error reports

An error is told as its cause and the contexts around it. The message names the contexts first,
from the outermost to the innermost; the trail lists the cause first.
-/

set_option autoImplicit false
set_option relaxedAutoImplicit false

namespace TapeMachine

structure Report where
  cause : String
  contexts : List String
  deriving DecidableEq, Repr

namespace Report

def ofCause (cause : String) : Report := ⟨cause, []⟩

def within (r : Report) (context : String) : Report := { r with contexts := r.contexts ++ [context] }

def trail (r : Report) : List String := r.cause :: r.contexts

/-- The whole report on one line, contexts first. -/
def message (r : Report) : String := String.intercalate ": " r.trail.reverse

end Report

end TapeMachine
