/-
# Engines

Which notation of patterns is understood, and how matches are found, is left to an engine.  It is
given the notation of a pattern, which it may refuse, or a text that stands for itself.  What it
makes of them is asked for matches in texts: for the first match from a place on, and for the matches
of a plain scan, in which each match starts where the one before stops or later.

An overlapped scan is made of such questions.  It goes on one character after the start of each
match, so that **it finds one match for every place at which there is one**.
-/
import TaggedText.Span

namespace TaggedText.Pattern

/-! ## 1. Places and matches -/

/-- A place between two characters of a text. -/
structure Place where
  position : Nat
  before : Option Char
  after : List Char

namespace Place

/-- The beginning of a text. -/
def start (text : List Char) : Place := ⟨0, none, text⟩

/-- The place behind the next character, `none` at the end. -/
def next? (p : Place) : Option Place :=
  match p.after with
  | [] => none
  | c :: rest => some ⟨p.position + c.utf8Size, some c, rest⟩

end Place

/-- A match: where it starts and stops, and the bounds of its groups. -/
structure Match where
  first : Place
  last : Place
  groups : List (Nat × Nat × Nat)

namespace Match

/-- The bounds of a group in a match, group 0 being all of it, `none` for a group that takes no
part in the match. -/
def bounds? (m : Match) (group : Nat) : Option (Nat × Nat) :=
  if group = 0 then some (m.first.position, m.last.position) else m.groups.lookup group

/-- The span of a group in a match. -/
def span? (group : Nat) (m : Match) : Option Span :=
  (m.bounds? group).bind fun (start, stop) => Span.ofBounds? start stop 0

end Match

/-! ## 2. Scans -/

/-- An overlapped scan from a place on, given a way to find the first match from a place on. -/
def scanFrom (find? : Place → Option Match) : Nat → Place → List Match
  | 0, _ => []
  | fuel + 1, p =>
    match find? p with
    | none => []
    | some found =>
      match found.first.next? with
      | none => [found]
      | some later => found :: scanFrom find? fuel later

/-- What an engine has made of a pattern. -/
structure Finder where
  /-- The match in a text with the first start from a place on. -/
  find? (text : List Char) : Place → Option Match
  /-- The matches of a plain scan of a text. -/
  findAll (text : List Char) : List Match

/-- All matches in a text. -/
def Finder.matches (f : Finder) (overlapped : Bool) (text : List Char) : List Match :=
  if overlapped then scanFrom (f.find? text) (text.length + 1) (Place.start text)
  else f.findAll text

/-- The spans of a group in all matches in a text. -/
def Finder.spans (f : Finder) (group : Nat) (overlapped : Bool) (text : List Char) : List Span :=
  (f.matches overlapped text).filterMap (Match.span? group)

/-! ## 3. Engines -/

/-- What understands the notation of patterns. -/
class Engine where
  /-- What is made of the notation of a pattern; `none` for one that is refused. -/
  compile? (source : List Char) : Option Finder
  /-- What is made of a text that stands for itself, every special character in it escaped. -/
  literal? (text : List Char) : Option Finder

end TaggedText.Pattern
