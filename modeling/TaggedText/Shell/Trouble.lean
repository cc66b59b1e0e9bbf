/-
# Trouble at the shell

What goes wrong with what is typed: a line that is no command, or a command that fails.
-/
import TaggedText.Fault

namespace TaggedText.Shell

/-- The cause of trouble. -/
inductive Trouble where
  /-- A command fails. -/
  | fault (e : Fault)
  /-- A formula cannot be read. -/
  | formula
  /-- No form can be read. -/
  | unreadable
  /-- The line is a form, but no call. -/
  | noCall (line : List Char)
  /-- The line is a call, but of no command. -/
  | noCommand (line : List Char)
  /-- There is something behind the form. -/
  | trailing (rest : List Char)
deriving DecidableEq

/-- Trouble in words. -/
def Trouble.message : Trouble → String
  | fault e => e.message
  | formula => "lua: the predicate cannot be read"
  | unreadable => "parse error:\nthe line cannot be read"
  | noCall line => "expected a command: " ++ String.ofList line
  | noCommand line => "unknown command or arguments: " ++ String.ofList line
  | trailing rest =>
    "unexpected input after command: " ++ String.ofList (Text.quoted rest)

end TaggedText.Shell
