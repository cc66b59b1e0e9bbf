/-
# Predicates

What a query asks of the spans in some of its columns: a named relation, a distance, or a predicate
of the user, which goes by its name.  What a predicate of the user answers is given from outside and
may have effects.
-/
import TaggedText.Relation

namespace TaggedText.Query

/-- A condition on a row. -/
inductive Predicate where
  | relation (r : Relation)
  /-- The second span starts at or behind the stop of the first, and the gap compares so. -/
  | distance (comparison : Comparison) (n : Nat)
  | user (name : String)
deriving DecidableEq

/-- The answers of the predicates of the user. -/
abbrev Judge (m : Type → Type) := String → Row → m Bool

namespace Predicate

/-- A predicate in listings. -/
def text : Predicate → String
  | relation r => r.name
  | distance comparison n => "dist " ++ comparison.symbol ++ " " ++ n.repr
  | user name => name

/-- The distance between two spans compares with a number. -/
def distanceHolds (comparison : Comparison) (n : Nat) : Row → Bool
  | [a, b] => a.offset == b.offset && a.stop ≤ b.start && comparison.holds (b.start - a.stop) n
  | _ => false

/-- The condition is met by a row. -/
def holds {m : Type → Type} [Monad m] (judge : Judge m) : Predicate → Row → m Bool
  | relation r, row => pure (r.holds row)
  | distance comparison n, row => pure (distanceHolds comparison n row)
  | user name, row => judge name row

/-- The predicate of a name; those of the user come first. -/
def ofName? (users : List String) (name : String) : Option Predicate :=
  if users.contains name then some (user name) else (Relation.ofName? name).map relation

end Predicate

end TaggedText.Query
