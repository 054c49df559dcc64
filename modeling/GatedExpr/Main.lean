import GatedExpr.Session.CommandLine

/-! # The program

Reads the files that the arguments name and the typed lines, and prints what the session prints.
-/

namespace GatedExpr.Program

def printLine : OutputLine → IO Unit
  | .out text => IO.println text
  | .err text => IO.eprintln text

def printAll (lines : List OutputLine) : IO Unit :=
  lines.forM printLine

/-- The text of a file, or why there is none. -/
def readFile (path : String) : IO (Except FileFault String) := do
  try
    return .ok (← IO.FS.readFile path)
  catch fault =>
    match fault with
    | .noFileOrDirectory .. => return .error .notFound
    | _ => return .error .isDirectory

def reason : FileFault → String
  | .notFound => "no such file"
  | .isDirectory => "is a directory"
  | .notADirectory => "not a directory"
  | .nameTooLong => "the name is too long"
  | .nullCharacter => "the name has a null character"

/-- Prints the result of a run and yields its exit status. -/
def finish (result : RunResult) : IO UInt32 := do
  printAll result.printed
  match result.ending with
  | .finished => return 0
  | .exit status => return status.toUInt32
  | .unreadable fault =>
    IO.eprintln (reason fault)
    return 1
  | .failed fault =>
    IO.eprintln fault.text
    return 1

/-- Prompts for lines until the session ends. -/
partial def prompt (runner : Runner) (state : SessionState) : IO UInt32 := do
  IO.print ">> "
  (← IO.getStdout).flush
  let line ← (← IO.getStdin).getLine
  if line.isEmpty then
    printAll Repl.farewell
    return 0
  else
    let (goesOn, state) := (Repl.runLine runner line).run state
    printAll state.printed.reverse
    if goesOn then prompt runner { state with printed := [] } else return 0

def runWith (invocation : Invocation) (config : Option String) (world : World) : IO UInt32 := do
  match (CommandLine.runnerOf config).run world with
  | (.error fault, _) => finish { printed := [], ending := .failed fault }
  | (.ok runner, world) =>
    match invocation.task with
    | .usage => finish { printed := [CommandLine.usage], ending := .exit 2 }
    | .script path => do
      finish (CommandLine.runScript runner world path (← readFile path))
    | .interactive =>
      printAll Repl.greeting
      prompt runner (.initial world)

end GatedExpr.Program

open GatedExpr Program in
def main (arguments : List String) : IO UInt32 := do
  match Invocation.ofArguments arguments with
  | none => finish { printed := [CommandLine.usage], ending := .exit 2 }
  | some invocation =>
    let world := World.initial (← IO.rand 0 (twoTo 48 - 1))
    match invocation.whitelistPath? with
    | none => runWith invocation none world
    | some path =>
      match ← readFile path with
      | .error fault => finish { printed := [], ending := .unreadable fault }
      | .ok text => runWith invocation (some text) world
