/-
# Sets of characters

What a pattern asks of a single character: ranges and classes, put together by the operations on
sets.  A set may be widened to the characters that differ from its members in case only; the
complement of such a set is taken after the widening.
-/
import TaggedText.Text.Word
import TaggedText.Text.Blank
import TaggedText.Text.CaseFold

namespace TaggedText.Pattern

open Text (isWord isDecimal isBlank caseMates)

/-- A set of characters. -/
inductive CharSet where
  | none
  | any
  /-- The characters from one to another, both included. -/
  | range (first last : Char)
  | word
  | decimal
  | blank
  | complement (a : CharSet)
  | union (a b : CharSet)
  | intersection (a b : CharSet)
  | difference (a b : CharSet)
  | symmetricDifference (a b : CharSet)
  /-- The members and all characters that differ from one of them in case only. -/
  | anyCase (a : CharSet)

namespace CharSet

/-- The character is in the set. -/
def contains : CharSet → Char → Bool
  | none, _ => false
  | any, _ => true
  | range first last, c => first ≤ c && c ≤ last
  | word, c => isWord c
  | decimal, c => isDecimal c
  | blank, c => isBlank c
  | complement a, c => !a.contains c
  | union a b, c => a.contains c || b.contains c
  | intersection a b, c => a.contains c && b.contains c
  | difference a b, c => a.contains c && !b.contains c
  | symmetricDifference a b, c => a.contains c != b.contains c
  | anyCase a, c => (caseMates c).any a.contains

/-- The set of one character. -/
def single (c : Char) : CharSet := range c c

/-- The set of the given ranges. -/
def ofRanges (ranges : List (Char × Char)) : CharSet :=
  ranges.foldr (fun r s => union (range r.1 r.2) s) none

/-- All characters but the line feed. -/
def notLineFeed : CharSet := complement (single '\n')

@[simp] theorem contains_single (c d : Char) : (single c).contains d = (c == d) := by
  simp only [single, contains]
  rcases h : c == d with _ | _
  · have hne : c ≠ d := by simpa using h
    simp only [Bool.and_eq_false_imp, decide_eq_true_eq, decide_eq_false_iff_not]
    exact fun h₁ h₂ => hne (Char.le_antisymm h₁ h₂)
  · have : c = d := by simpa using h
    subst this
    simp

end CharSet

end TaggedText.Pattern
