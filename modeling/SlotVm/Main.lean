import SlotVm.Host.Session
import SlotVm.Host.Usage

/-!
# The program

Reads the files that the arguments name and the console input, runs the
session, and writes what it left.
-/

namespace SlotVm

/-- More instructions than any run gets through. -/
def stepLimit : Nat := 0x4000000000000000

/-- Bytes of a block of the standard input. -/
def inputBlock : Nat := 8192

/-- Why a file cannot be read, in the words of the operating system. -/
def readFailure : IO.Error → String
  | .noFileOrDirectory .. => "No such file or directory (os error 2)"
  | .permissionDenied .. => "Permission denied (os error 13)"
  | .inappropriateType .. => "Is a directory (os error 21)"
  | e => toString e

/-- The contents of the files with the given names. -/
def readFiles (names : List String) : IO Files := do
  let contents ← names.mapM fun (name : String) => do
    let content ← (IO.FS.readBinFile name).toBaseIO
    return (name, content.mapError readFailure)
  return fun name =>
    (contents.lookup name).getD (.error "the file was not read")

/-- Writes what a session left, and ends with its status. -/
def writeTranscript (t : Transcript) : IO UInt32 := do
  let out ← IO.getStdout
  out.putStr t.output
  out.flush
  for line in t.errorLines do
    IO.eprintln line
  return t.exitCode.toUInt32

/-- Runs the program image that the arguments name. -/
def runArguments (arguments : List String) : IO UInt32 := do
  match Options.ofArguments arguments with
  | .error d =>
      IO.print d.output
      IO.eprint d.errorOutput
      return d.exitCode.toUInt32
  | .ok options =>
      let files ← readFiles options.fileNames
      let input ← (← IO.getStdin).readBinToEnd
      let console := Console.ofBlocks inputBlock input.data
      writeTranscript (Session.run stepLimit options files console)

end SlotVm

/-- The entry point. -/
def main (arguments : List String) : IO UInt32 :=
  SlotVm.runArguments arguments
