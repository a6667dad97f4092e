/-!
# Sample programs
-/

set_option autoImplicit false
set_option relaxedAutoImplicit false

namespace TapeMachine.Samples

/-- Prints the first letters of the alphabet. The tape wraps around: the loop counter is in cell 0
and the result is built in the last cell. -/
def alphabet : String := "++++++++[<++++++++++++>-]<+.+.+."

/-- Reads bytes up to a 0 byte and prints them in ascending order. -/
def sort : String := ">>,[>>,]<<[[-<+<]>[>[>>]<[.[-]<[[>>+<<-]<]>>]>]<<]"

/-- Copies its input to its output up to a 0 byte. -/
def cat : String := ",[.,]"

end TapeMachine.Samples
