/-
# The matches of a pattern

Matches are looked for from left to right.  A plain scan goes on behind each match, and leaves out
an empty match directly behind the one before.
-/
import TaggedText.Pattern.Match

namespace TaggedText.Pattern

/-- The match with the first start from a place on; the characters after the place are given
separately, to go through them. -/
def Matcher.findAfter? (m : Matcher) (position : Nat) (before : Option Char) :
    List Char → Option Match
  | [] => m.matchAt? ⟨position, before, []⟩
  | c :: rest =>
    match m.matchAt? ⟨position, before, c :: rest⟩ with
    | some found => some found
    | none => m.findAfter? (position + c.utf8Size) (some c) rest

/-- The match with the first start from a place on. -/
def Matcher.find? (m : Matcher) (p : Place) : Option Match :=
  m.findAfter? p.position p.before p.after

/-- The matches from a place on, each starting where the one before stops or later.  `stopped` is
where the one before stopped. -/
def Matcher.plainFrom (m : Matcher) : Nat → Place → Option Nat → List Match
  | 0, _, _ => []
  | fuel + 1, p, stopped =>
    match m.find? p with
    | none => []
    | some found =>
      if found.first.position = found.last.position ∧ stopped = some found.last.position then
        match p.next?.bind m.find? with
        | none => []
        | some later => later :: m.plainFrom fuel later.last (some later.last.position)
      else found :: m.plainFrom fuel found.last (some found.last.position)

/-- What a pattern finds. -/
def finder (p : Pattern) : Finder where
  find? _ := p.matcher.find?
  findAll text := p.matcher.plainFrom (2 * text.length + 2) (Place.start text) none

/-- The spans of a group in all matches of a pattern in a text. -/
def spans (p : Pattern) (group : Nat) (overlapped : Bool) (text : List Char) : List Span :=
  p.finder.spans group overlapped text

end TaggedText.Pattern
