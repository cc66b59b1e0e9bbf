/-
# Patterns

A pattern describes runs of characters by sets, anchors, sequence, choice, repetition and numbered
groups.  Choices are ordered: an earlier alternative is preferred, and a greedy repetition prefers
one more round.  This module has the patterns themselves and the two facts about a pattern that a
search for its matches depends on: whether it can match without taking a character, and how large
it becomes when its repetitions are written out.
-/
import TaggedText.Pattern.CharSet

namespace TaggedText

/-- A condition on a place between two characters. -/
inductive Pattern.Anchor where
  | textStart
  | textEnd
  | lineStart
  | lineEnd
  | wordBoundary
  | noWordBoundary
  | wordStart
  | wordEnd
  | noWordBefore
  | noWordAfter
deriving DecidableEq

/-- A description of runs of characters. -/
inductive Pattern where
  | empty
  | one (set : Pattern.CharSet)
  | anchor (a : Pattern.Anchor)
  | seq (p q : Pattern)
  | choice (p q : Pattern)
  /-- Between `least` and `most` rounds, or at least so many when there is no most. -/
  | rounds (greedy : Bool) (least : Nat) (most : Option Nat) (p : Pattern)
  | group (index : Nat) (p : Pattern)

namespace Pattern

/-- The pattern can match without taking a character. -/
def nullable : Pattern → Bool
  | empty => true
  | one _ => false
  | anchor _ => true
  | seq p q => p.nullable && q.nullable
  | choice p q => p.nullable || q.nullable
  | rounds _ least _ p => least == 0 || p.nullable
  | group _ p => p.nullable

/-- The number of parts when every repetition is written out as often as it is counted. -/
def weight : Pattern → Nat
  | empty => 1
  | one _ => 1
  | anchor _ => 1
  | seq p q => p.weight + q.weight
  | choice p q => 1 + p.weight + q.weight
  | rounds _ least none p => 1 + max least 1 * p.weight
  | rounds _ _ (some most) p => 1 + most * p.weight
  | group _ p => 2 + p.weight

/-- The pattern of exactly the given characters. -/
def literal : List Char → Pattern
  | [] => empty
  | [c] => one (.single c)
  | c :: rest => seq (one (.single c)) (literal rest)

/-- The patterns one after the other. -/
def sequence : List Pattern → Pattern
  | [] => empty
  | [p] => p
  | p :: rest => seq p (sequence rest)

/-- Any one of the patterns, an earlier one preferred. -/
def oneOf : List Pattern → Pattern
  | [] => empty
  | [p] => p
  | p :: rest => choice p (oneOf rest)

end Pattern

end TaggedText
