import ProjectAssembler.CommandLine.Run
import ProjectAssembler.FileSystem.Snapshot

/-!
# The command line

The program is told its command by the arguments, its settings by the environment, and the file
system to work in by a snapshot on the standard input.  Reports go to the standard output and
errors to the standard error output.
-/

namespace ProjectAssembler

/-- Everything that is left in a stream. -/
partial def readAll (stream : IO.FS.Stream) (read : String) : IO String := do
  let line ← stream.getLine
  if line.isEmpty then return read
  else readAll stream (read ++ line)

/-- The variables of the environment that are looked at. -/
def readEnvironment : IO Environment := do
  return ⟨Environment.pathOf? (← IO.getEnv "HOME"),
    Environment.pathOf? (← IO.getEnv "NUGET_PACKAGES"),
    Environment.pathOf? (← IO.getEnv "WHARF_FRAMEWORK_DIR"),
    Environment.pathOf? (← IO.getEnv "DOTNET_ROOT")⟩

/-- Say what a run leaves behind; a wrong invocation is told how the program is to be called. -/
def Outcome.say (outcome : Outcome) : IO UInt32 := do
  IO.print outcome.output
  if outcome = Program.misused then
    IO.eprint (Program.textOfLines Program.usageLines)
  if let some error := outcome.failure then
    IO.eprintln (error.code ++ ": " ++ error.message)
  return outcome.exitCode.toUInt32

end ProjectAssembler

open ProjectAssembler in
/-- Carry out the invocation that the arguments spell. -/
def main (arguments : List String) : IO UInt32 := do
  let snapshot ← readAll (← IO.getStdin) ""
  match FileSystem.ofSnapshot? snapshot with
  | none =>
      IO.eprintln "the standard input is not a snapshot of a file system"
      return 1
  | some system =>
      ((⟨system, ← readEnvironment⟩ : Program).run (.ofArguments arguments)).say
