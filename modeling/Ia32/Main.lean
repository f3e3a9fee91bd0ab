import Ia32.CommandLine

/-!
# The program

Reads the file that the arguments name, prints the reply, and ends with its exit code.
-/

namespace Ia32.CommandLine

/-- The number of a reason. Some file operations give it negated. -/
def systemNumber (code : UInt32) : Nat :=
  if 0x80000000 ≤ code then (0 - code).toNat else code.toNat

/-- The reason for a failed read. -/
def FileError.ofSystem : IO.Error → FileError
  | .alreadyExists _ code description
  | .otherError code description
  | .resourceBusy code description
  | .resourceVanished code description
  | .unsupportedOperation code description
  | .hardwareFault code description
  | .unsatisfiedConstraints code description
  | .illegalOperation code description
  | .protocolError code description
  | .timeExpired code description
  | .interrupted _ code description
  | .noFileOrDirectory _ code description
  | .invalidArgument _ code description
  | .permissionDenied _ code description
  | .resourceExhausted _ code description
  | .inappropriateType _ code description
  | .noSuchThing _ code description => .ofCode (systemNumber code) description
  | .unexpectedEof => { description := "unexpected end of file", code := 0 }
  | .userError description => { description, code := 0 }

/-- Read a file of the system. -/
def readSystemFile (path : String) : IO (Except FileError (Array UInt8)) := do
  match ← (IO.FS.readBinFile path).toBaseIO with
  | .ok contents => return .ok contents.data
  | .error error => return .error (.ofSystem error)

end Ia32.CommandLine

def main (arguments : List String) : IO UInt32 := do
  let reply ← Ia32.CommandLine.respond Ia32.CommandLine.readSystemFile arguments
  IO.print reply.output
  IO.eprint reply.errorOutput
  return reply.exitCode
