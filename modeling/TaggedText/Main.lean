/-
# The program

Reads the files that it is given, plays the script, and hands every line that is typed to the
console.
-/
import TaggedText.Shell.Console
import TaggedText.Shell.Options

namespace TaggedText.Shell

/-- Events are shown. -/
def printEvents (events : List Event) : IO Unit := do
  let output ← IO.getStdout
  for e in events do output.putStr e.text
  output.flush

/-- Lines are typed until there are no more. -/
partial def typeLines (c : Console) (input : IO.FS.Stream) : IO Unit := do
  let line ← input.getLine
  if line.isEmpty then return
  let (c, shown) := c.type line.toList
  printEvents shown
  typeLines c input

/-- A session is typed into until the input ends. -/
def converseWith (s : Session) : IO Unit := do
  printEvents [Console.greeting]
  typeLines ⟨s, .idle⟩ (← IO.getStdin)
  printEvents [Console.farewell]

/-- The content of a file, nothing without one. -/
def contentOf (path : Option String) : IO String :=
  match path with
  | some path => IO.FS.readFile path
  | none => pure ""

/-- The script is played, if there is one, and the console is opened unless it ends in trouble. -/
def runProgram (o : Options) : IO UInt32 := do
  let s := Session.ofText (← contentOf o.text) o.keepCase
  let course ← match o.script with
    | some path => do
      let script ← IO.FS.readFile path
      pure (Console.playScript ⟨s, .idle⟩ script.toList)
    | none => pure ⟨.ok ⟨s, .idle⟩, []⟩
  printEvents course.shown
  match course.console with
  | .ok c => do
    converseWith c.session
    return 0
  | .error t => do
    IO.eprintln t.message
    return 1

end TaggedText.Shell

/-- The program with its arguments. -/
def main (arguments : List String) : IO UInt32 :=
  match TaggedText.Shell.Options.read? {} arguments with
  | some o => TaggedText.Shell.runProgram o
  | none => do
    IO.eprintln TaggedText.Shell.Options.usage
    return 1
