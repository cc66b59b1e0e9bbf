/-
# Options of the program

The program may be given a text, a script that is played before anything is typed, and the wish that
the text keeps its capital letters.
-/

namespace TaggedText.Shell

/-- What the program is asked for. -/
structure Options where
  /-- The file with the text; without one the text is empty. -/
  text : Option String := none
  /-- The file with the script. -/
  script : Option String := none
  keepCase : Bool := false
  /-- More is asked about the course of queries; what is shown is the same. -/
  debug : Bool := false

namespace Options

/-- Options with those that some arguments ask for, `none` if they ask for anything else. -/
def read? (o : Options) : List String → Option Options
  | [] => some o
  | "-t" :: path :: rest => read? { o with text := some path } rest
  | "--text" :: path :: rest => read? { o with text := some path } rest
  | "-f" :: path :: rest => read? { o with script := some path } rest
  | "--file" :: path :: rest => read? { o with script := some path } rest
  | "-k" :: rest => read? { o with keepCase := true } rest
  | "--keep-case" :: rest => read? { o with keepCase := true } rest
  | "-d" :: rest => read? { o with debug := true } rest
  | "--debug" :: rest => read? { o with debug := true } rest
  | _ => none

/-- How the program is called. -/
def usage : String :=
  "usage: [-t|--text FILE] [-f|--file FILE] [-k|--keep-case] [-d|--debug]"

end Options

end TaggedText.Shell
