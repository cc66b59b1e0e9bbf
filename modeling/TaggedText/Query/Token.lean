/-
# The words of a query

A query text is a sequence of names, numbers, the delimiters `( ) ,`, the operators `and` and `or`,
and distances.  A distance such as `dist(0, 1) <= 3` becomes one token for its comparison and
number, followed by the tokens of its two columns in parentheses, so that it can be read like any
other predicate.  A comparison symbol anywhere else is a token of its own, which no query accepts.
-/
import TaggedText.Comparison

namespace TaggedText.Query

/-- A word of a query. -/
inductive Token where
  | name (word : String)
  | number (n : Nat)
  | opening
  | closing
  | comma
  | conjunction
  | disjunction
  /-- The comparison and the number of a distance. -/
  | distance (comparison : Comparison) (n : Nat)
  /-- A comparison symbol outside of a distance. -/
  | symbol (c : Char)
deriving DecidableEq

/-- A token as messages show it. -/
def Token.text : Token → String
  | .name word => word
  | .number n => n.repr
  | .opening => "("
  | .closing => ")"
  | .comma => ","
  | .conjunction => "and"
  | .disjunction => "or"
  | .distance comparison n => "dist[" ++ comparison.symbol ++ " " ++ n.repr ++ "]"
  | .symbol c => String.singleton c

end TaggedText.Query
