import Ia32.CommandLine
import Ia32.Proofs.Budget
import Ia32.Proofs.Loading
import Ia32.Proofs.Text

/-!
# What a command prints

A command succeeds when it names a program and, if at all, a step budget that is a numeral, when
the program can be read and fits into the memory, and when it halts within the budget. The reply
then is a summary from which the state of the processor can be read back. Every other command
fails with an error report, and a budget that is no numeral is reported before any file is read.
-/

namespace Ia32

namespace Machine

/-! ## Lines of a summary -/

variable (machine : Machine)

variable {machine} {other : Machine}

end Machine

namespace CommandLine

/-! ## Commands that succeed -/

variable (files : String → Except FileError (Array UInt8)) (arguments : List String)

/-- The reply to a command where the files are as given. -/
def reply : Reply :=
  Id.run (respond (fun path => pure (files path)) arguments)

/-- What a command comes to where the files are as given. -/
def result : Except Failure Machine := do
  let command ← Command.ofArguments arguments
  command.execute (files command.path)

variable {files arguments}

end CommandLine

end Ia32
