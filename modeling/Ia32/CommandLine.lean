import Ia32.Machine

/-!
# The command line

A command names a program and, if it likes, a step budget; what follows is ignored. The
program is loaded at address zero of a memory of the default size and run until it halts.
The budget is looked at before the program is read. What is printed is a summary of the
machine that has halted, which shows the whole state of the processor, or the reason why no
machine did, with what lies behind it in a paragraph of its own.
-/

namespace Ia32

namespace Machine

/-- The lines that sum up a machine that has halted: the count of instructions, the
registers, and the flags. -/
def summaryLines (machine : Machine) : List String :=
  let count :=
    s!"halted after {machine.steps} instructions, eip=" ++ Text.Hexadecimal.word machine.cpu.eip
  let register (code : RegisterCode) : String :=
    code.name .dword ++ " = " ++ Text.Hexadecimal.word (machine.cpu.registers.word code)
  let flag (flag : Flag) : String :=
    flag.name ++ "=" ++ if machine.cpu.flags.get flag then "1" else "0"
  count :: RegisterCode.all.map register ++ [" ".intercalate (Flag.all.map flag)]

/-- The summary of a machine that has halted. -/
def summary (machine : Machine) : String :=
  String.join (machine.summaryLines.map (· ++ "\n"))

end Machine

namespace CommandLine

/-! ## Reasons for a failure -/

/-- Why a file could not be read. -/
structure FileError where
  description : String
  code : Nat
  deriving DecidableEq, Repr

namespace FileError

def message (error : FileError) : String :=
  s!"{error.description} (os error {error.code})"

def notFound : FileError :=
  { description := "No such file or directory", code := 2 }

def inputOutput : FileError :=
  { description := "Input/output error", code := 5 }

def permissionDenied : FileError :=
  { description := "Permission denied", code := 13 }

def notDirectory : FileError :=
  { description := "Not a directory", code := 20 }

def isDirectory : FileError :=
  { description := "Is a directory", code := 21 }

def tooManyOpenFiles : FileError :=
  { description := "Too many open files", code := 24 }

def nameTooLong : FileError :=
  { description := "File name too long", code := 36 }

def tooManyLinks : FileError :=
  { description := "Too many levels of symbolic links", code := 40 }

/-- The reasons that the operating system has words of its own for. -/
def known : List FileError :=
  [notFound, inputOutput, permissionDenied, notDirectory, isDirectory, tooManyOpenFiles,
    nameTooLong, tooManyLinks]

/-- The reason with the given number, described in the words of the operating system where
they are known. -/
def ofCode (code : Nat) (description : String) : FileError :=
  (known.find? (·.code = code)).getD { description, code }

end FileError

/-- Why a command gave no halted machine. -/
inductive Failure where
  /-- No program was named. -/
  | missingPath
  /-- The step budget is no numeral. -/
  | invalidBudget (text : String) (cause : Text.NumeralError)
  /-- The program could not be read. -/
  | unreadable (path : String) (cause : FileError)
  /-- The program does not fit, cannot be decoded, or used up its steps. -/
  | machine (cause : Machine.Error)
  deriving DecidableEq, Repr

namespace Failure

/-- The text of an error and, where there is one, of its cause. -/
def reportError (message : String) (cause : Option String) : String :=
  match cause with
  | none => s!"Error: {message}\n"
  | some cause => s!"Error: {message}\n\nCaused by:\n    {cause}\n"

/-- What is printed for a failure. -/
def report : Failure → String
  | .missingPath =>
      "Usage: bytevm <program.bin> [max_steps]\n" ++
        "The program is loaded at address 0 and runs until HLT (0xF4).\n"
  | .invalidBudget text cause => reportError s!"invalid step budget '{text}'" cause.message
  | .unreadable path cause => reportError s!"failed to read '{path}'" cause.message
  | .machine cause => reportError cause.message none

end Failure

/-! ## Commands -/

/-- What a command leaves behind: an exit code and two texts. -/
structure Reply where
  exitCode : UInt32
  output : String
  errorOutput : String
  deriving DecidableEq, Repr

/-- The reply for a machine that has halted, or for the reason why none did. -/
def Reply.ofResult : Except Failure Machine → Reply
  | .ok machine => { exitCode := 0, output := machine.summary, errorOutput := "" }
  | .error failure => { exitCode := 1, output := "", errorOutput := failure.report }

/-- A program to run and the configuration to run it with. -/
structure Command where
  path : String
  config : Config
  deriving DecidableEq, Repr

namespace Command

/-- Read the arguments of a command. -/
def ofArguments : List String → Except Failure Command
  | [] => .error .missingPath
  | [path] => .ok { path, config := {} }
  | path :: budget :: _ =>
      match Text.Numeral.read budget.toList with
      | .ok maxSteps => .ok { path, config := { maxSteps } }
      | .error cause => .error (.invalidBudget budget cause)

/-- Run the program of a command, once its file has been read. -/
def execute (command : Command) (program : Except FileError (Array UInt8)) :
    Except Failure Machine :=
  match program with
  | .error cause => .error (.unreadable command.path cause)
  | .ok program =>
      match Machine.runProgram none command.config program with
      | .error cause => .error (.machine cause)
      | .ok { result := .error cause, .. } => .error (.machine cause)
      | .ok { result := .ok (), machine, .. } => .ok machine

end Command

/-- Answer a command, with a way to read files. -/
def respond {m : Type → Type} [Monad m]
    (readFile : String → m (Except FileError (Array UInt8))) (arguments : List String) :
    m Reply := do
  match Command.ofArguments arguments with
  | .error failure => return .ofResult (.error failure)
  | .ok command =>
      let program ← readFile command.path
      return .ofResult (command.execute program)

end CommandLine

end Ia32
