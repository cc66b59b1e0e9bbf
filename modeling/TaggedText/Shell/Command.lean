/-
# Commands

What can be done at the shell.  A command is typed as a call; its name, the number of its arguments
and their kinds have to fit together, and nothing else is a command.
-/
import TaggedText.Document
import TaggedText.Shell.Form

namespace TaggedText.Shell

/-- A command with its arguments. -/
inductive Command where
  /-- Tag the matches of a pattern. -/
  | regex (tag pattern : String) (group : Nat) (overlapped : Bool)
  /-- Tag the gaps between two tags. -/
  | between (tag first second : String) (distance : Nat)
  /-- Tag the column in which a text occurs. -/
  | column (tag needle : String)
  /-- Tag the spans of a tag, counted from the starts of those of another. -/
  | project (tag source reference : String)
  /-- List the spans of a reference. -/
  | spans (reference : Reference)
  /-- List the tags. -/
  | tags
  | delete (tag : String)
  /-- List the parts of the text that the references leave free. -/
  | untagged (references : List Reference)
  /-- Print the text with the spans of a tag replaced. -/
  | replace (tag : String) (new : List Char)
  /-- Print the text with tags painted over it. -/
  | apply (tags : List String)
  /-- Define a predicate by a formula. -/
  | predicate (name : String) (source : List Char)
  /-- List the rows that a query holds for. -/
  | query (text : String) (references : List Reference)
deriving DecidableEq

/-- A form as a reference: a symbol is a tag and a text is a literal. -/
def Form.reference? : Form → Option Reference
  | symbol name => some (.tag (String.ofList name))
  | text content => some (.literal (String.ofList content))
  | _ => none

/-- A form as the name of a tag. -/
def Form.tag? : Form → Option String
  | symbol name => some (String.ofList name)
  | _ => none

namespace Command

/-- The command that tags the matches of a pattern. -/
def matches? (overlapped : Bool) : List Form → Option Command
  | [.symbol tag, .text pattern] =>
    some (regex (String.ofList tag) (String.ofList pattern) 0 overlapped)
  | [.symbol tag, .text pattern, .number group] =>
    some (regex (String.ofList tag) (String.ofList pattern) group overlapped)
  | _ => none

/-- The command of a name, with its arguments. -/
def ofCall? (name : String) (arguments : List Form) : Option Command :=
  match name, arguments with
  | "regex", _ => matches? false arguments
  | "overlapped", _ => matches? true arguments
  | "between", [.symbol tag, .symbol first, .symbol second, .number distance] =>
    some (between (String.ofList tag) (String.ofList first) (String.ofList second) distance)
  | "column", [.symbol tag, .text needle] =>
    some (column (String.ofList tag) (String.ofList needle))
  | "project", [.symbol tag, .symbol source, .symbol reference] =>
    some (project (String.ofList tag) (String.ofList source) (String.ofList reference))
  | "show", [f] => f.reference?.map spans
  | "tags", [] => some tags
  | "delete", [.symbol tag] => some (delete (String.ofList tag))
  | "untagged", fs => (fs.mapM Form.reference?).map untagged
  | "replace", [.symbol tag, .text new] => some (replace (String.ofList tag) new)
  | "apply", fs => (fs.mapM Form.tag?).map apply
  | "udp", [.symbol name, .text source] => some (predicate (String.ofList name) source)
  | "query", .text text :: fs => (fs.mapM Form.reference?).map (query (String.ofList text))
  | _, _ => none

end Command

end TaggedText.Shell
