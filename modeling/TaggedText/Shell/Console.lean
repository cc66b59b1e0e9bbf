/-
# The console

A session is first given a script, line by line, and then what is typed.  In a script, lines that
begin with `> ` are typed into the session, a blank line runs what waits, and all other lines are
there to be read; every line that is not empty is shown, and the end of the script runs what still
waits.  Trouble ends the script, and with it the program.  What is typed is run as soon as it is
complete, and trouble is reported.

Between lines the console remembers what is to be expected next; a script hands over its session, but
the first line that is typed is always expected to begin a command.

The console is the same for all engines and languages; those of this library come with it.
-/
import TaggedText.Formula
import TaggedText.Pattern.Compile
import TaggedText.Shell.Session

namespace TaggedText.Shell

/-- A session, and what is to be expected of the next line. -/
structure Console [Language] where
  session : Session
  cursor : Cursor := .idle

/-- Something that is shown. -/
inductive Event where
  /-- A line of a script. -/
  | line (text : List Char)
  /-- What commands had to say. -/
  | output (lines : List String)
  | trouble (t : Trouble)
  | remark (text : String)

namespace Event

/-- An event as it is shown.  Output is indented and stands between empty lines. -/
def text : Event → String
  | line text => String.ofList text ++ "\n"
  | output lines => "\n" ++ String.join (lines.map fun l => "  " ++ l ++ "\n") ++ "\n"
  | trouble t => "Error: " ++ t.message ++ "\n"
  | remark text => text ++ "\n"

/-- The lines of output among some events. -/
def outputs (events : List Event) : List String :=
  events.flatMap fun
    | output lines => lines
    | _ => []

@[simp] theorem outputs_append (front back : List Event) :
    outputs (front ++ back) = outputs front ++ outputs back :=
  List.flatMap_append

end Event

namespace Console

variable [Pattern.Engine] [Language]

/-! ## 1. Scripts -/

/-- What becomes of the console, or the trouble that ends the script, and what is shown. -/
structure Course where
  console : Except Trouble Console
  shown : List Event := []

/-- A piece is typed into the session. -/
def add (c : Console) (piece : List Char) : Course :=
  match c.session.add piece with
  | (s, .ok cursor) => ⟨.ok ⟨s, cursor⟩, []⟩
  | (_, .error t) => ⟨.error t, []⟩

/-- What waits is run. -/
def run (c : Console) : Course :=
  let e := c.session.execute
  match e.result with
  | .ok lines => ⟨.ok ⟨e.session, .idle⟩, [.output lines]⟩
  | .error t => ⟨.error t, []⟩

/-- What a line of a script does. -/
def obey (c : Console) (line : List Char) : Course :=
  match c.cursor, line with
  | .within, _ => c.add line
  | _, '>' :: ' ' :: piece => c.add piece
  | .ready, _ => if Text.allBlank line then c.run else ⟨.ok c, []⟩
  | .idle, _ => ⟨.ok c, []⟩

/-- A line of a script is shown, unless it is empty, and obeyed. -/
def play (c : Console) (line : List Char) : Course :=
  let course := c.obey line
  { course with shown := (if line.isEmpty then [] else [.line line]) ++ course.shown }

/-- The lines of a script one after the other. -/
def playAll (c : Console) : List (List Char) → Course
  | [] => ⟨.ok c, []⟩
  | line :: rest =>
    let first := c.play line
    match first.console with
    | .error _ => first
    | .ok c =>
      let others := c.playAll rest
      { others with shown := first.shown ++ others.shown }

/-- The end of a script runs what waits. -/
def finish (c : Console) : Course := if c.cursor = .idle then ⟨.ok c, []⟩ else c.run

/-- A script is played to its end. -/
def playScript (c : Console) (script : List Char) : Course :=
  let course := c.playAll (Text.lines script)
  match course.console with
  | .error _ => course
  | .ok c =>
    let last := c.finish
    { last with shown := course.shown ++ last.shown }

/-! ## 2. Typing -/

/-- A line is typed, with its end, and run if it completes a command. -/
def type (c : Console) (line : List Char) : Console × List Event :=
  match c.session.add line with
  | (s, .error t) => (⟨s, .idle⟩, [.trouble t])
  | (s, .ok .ready) =>
    let e := s.execute
    (⟨e.session, .idle⟩,
      match e.result with
      | .ok lines => [.output lines]
      | .error t => [.trouble t])
  | (s, .ok cursor) => (⟨s, cursor⟩, [])

/-- Lines are typed one after the other. -/
def typeAll (c : Console) : List (List Char) → Console × List Event
  | [] => (c, [])
  | line :: rest =>
    let (c, first) := c.type line
    let (c, others) := c.typeAll rest
    (c, first ++ others)

/-- What is shown before the first line that is typed: no lines are kept from one session to the
next. -/
def greeting : Event := .remark "No previous history."

/-- What is shown when the input ends. -/
def farewell : Event := .remark "CTRL-D"

/-- A session is typed into until the input ends. -/
def converse (s : Session) (input : List Char) : Console × List Event :=
  let (c, shown) := Console.typeAll ⟨s, .idle⟩ (Text.linesWithEnds input)
  (c, greeting :: shown ++ [farewell])

/-! ## 3. The program -/

/-- What is shown of a script, if there is one, and of what is typed; without success if the script
ends in trouble. -/
def program (s : Session) (script : Option (List Char)) (input : List Char) :
    Bool × List Event :=
  match script with
  | none => (true, (converse s input).2)
  | some script =>
    let course := Console.playScript ⟨s, .idle⟩ script
    match course.console with
    | .error _ => (false, course.shown)
    | .ok c => (true, course.shown ++ (converse c.session input).2)

end Console

/-- A session on a text. -/
def Session.ofText [Language] (text : String) (keepCase : Bool) : Session :=
  { document := Document.ofString text (!keepCase) }

end TaggedText.Shell
