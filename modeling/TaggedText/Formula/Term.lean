/-
# Terms and statements

A formula is a block of statements.  Terms have values; statements put values into variables and
fields, branch, repeat, and answer.  There are no functions: a call can be written, and has no value.
-/
import TaggedText.Formula.Operator

namespace TaggedText.Formula

mutual

/-- What has a value. -/
inductive Term where
  | constant (v : Value)
  /-- The arguments of the formula, of which there are none. -/
  | arguments
  | name (n : String)
  | index (table key : Term)
  | call (callee : Term) (arguments : List Term)
  /-- A term in parentheses, which stands for one value and cannot be assigned to. -/
  | grouped (t : Term)
  | unary (operator : Unary) (t : Term)
  | length (t : Term)
  | binary (operator : Operator) (left right : Term)
  /-- The second term if the first counts as true, else the first. -/
  | both (left right : Term)
  /-- The first term if it counts as true, else the second. -/
  | either (left right : Term)
  | table (fields : List Field)

/-- A part of a new table, at the next number or under a key. -/
inductive Field where
  | item (value : Term)
  | entry (key value : Term)

end

/-- What is done. -/
inductive Statement where
  | assign (targets values : List Term)
  | declare (names : List String) (values : List Term)
  | block (body : List Statement)
  | branch (test : Term) (yes no : List Statement)
  | whileTrue (test : Term) (body : List Statement)
  | untilTrue (body : List Statement) (test : Term)
  /-- The body for each number from the first to the last. -/
  | count (index : String) (first last step : Term) (body : List Statement)
  | leave
  | answer (values : List Term)
  | perform (t : Term)

end TaggedText.Formula
