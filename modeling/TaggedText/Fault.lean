/-
# What can go wrong

Every failure has a cause, given here as a value, a six-digit code and a message.  A notice is
something that went differently from what was asked without making the request fail: the step in
question did nothing, and the notice says so.
-/
import TaggedText.Span
import TaggedText.Query.Token
import TaggedText.Text.Quoted

namespace TaggedText

open Text (quoted quotedChar numbers bracketed)

/-! ## 1. Operations that need a common offset -/

/-- The operations on several spans that ask for one common offset. -/
inductive Operation where
  | merge
  | closedSpan
  | openRightSpan
  | openLeftSpan
  | openSpan
  | inBetween
  | subtraction
deriving DecidableEq

namespace Operation

/-- The name of the operation in messages. -/
def name : Operation → String
  | merge => "merge"
  | closedSpan => "closed_span"
  | openRightSpan => "open_right_span"
  | openLeftSpan => "open_left_span"
  | openSpan => "open_span"
  | inBetween => "in_between"
  | subtraction => "rm_intervals"

/-- The code of the failure when the offsets differ. -/
def code : Operation → Nat
  | merge => 110201
  | closedSpan => 110301
  | openRightSpan => 110302
  | openLeftSpan => 110303
  | openSpan => 110304
  | inBetween => 110305
  | subtraction => 110901

end Operation

/-! ## 2. Flaws of a query text -/

namespace Query

/-- What a query text is wrong in. -/
inductive Flaw where
  /-- A character that no word of a query has. -/
  | strayCharacter (c : Char)
  /-- The text ends inside a distance, before the named part. -/
  | distanceEnds (what : String)
  /-- A distance has something else where the named part is expected. -/
  | distanceHas (piece : String) (what : String)
  | empty
  | endsBeforePredicate
  | misplacedOperator (operator : Token)
  | closingExpected (found : Token)
  | closingMissing
  | unexpected (found : Token)
  | closingUnmatched
  | operatorExpected (found : Token)
  /-- The parameters of a predicate break off, at a token or at the end. -/
  | parameters (found : Option Token)
deriving DecidableEq

namespace Flaw

/-- The code of a flaw. -/
def code : Flaw → Nat
  | strayCharacter _ => 110617
  | distanceEnds _ => 110607
  | distanceHas _ _ => 110606
  | empty => 110614
  | endsBeforePredicate => 110611
  | misplacedOperator _ => 110611
  | closingExpected _ => 110612
  | closingMissing => 110612
  | unexpected _ => 110612
  | closingUnmatched => 110612
  | operatorExpected _ => 110612
  | parameters _ => 110609

/-- A flaw in words. -/
def message : Flaw → String
  | strayCharacter c => "unexpected character " ++ String.ofList (quotedChar c)
  | distanceEnds what => "dist expression ends before " ++ what
  | distanceHas piece what =>
    "invalid dist expression at " ++ String.ofList (quoted piece.toList) ++
      ", expected " ++ what
  | empty => "empty query"
  | endsBeforePredicate => "query ends where a predicate is expected"
  | misplacedOperator operator => "misplaced operator " ++ operator.text
  | closingExpected found => "expected ) at " ++ found.text
  | closingMissing => "missing closing parenthesis"
  | unexpected found => "unexpected " ++ found.text
  | closingUnmatched => "unmatched closing parenthesis"
  | operatorExpected found => "expected and/or at " ++ found.text
  | parameters found =>
    "error while parsing parameters at " ++ (found.map Token.text).getD "end of query"

end Flaw

end Query

/-! ## 3. Clashes of column numbers -/

/-- How the column numbers of tables or selections clash. -/
inductive Clash where
  /-- Two tables to be joined share no column. -/
  | nothingShared (left right : List Nat)
  /-- A table to be joined has a column twice. -/
  | columnTwice (left right : List Nat)
  /-- Two tables to be crossed share a column. -/
  | somethingShared (left right : List Nat)
  /-- A selection names a column twice. -/
  | selectionTwice (rows added arguments : List Nat)
  /-- The added columns are not those of the arguments that the rows lack. -/
  | wrongAdded (added : List Nat)
  /-- The number of lists given differs from that of the added columns. -/
  | wrongCount (given : Nat) (added : List Nat)
deriving DecidableEq

namespace Clash

/-- The code of a clash. -/
def code : Clash → Nat
  | nothingShared _ _ => 110601
  | columnTwice _ _ => 110602
  | somethingShared _ _ => 110603
  | selectionTwice _ _ _ => 110801
  | wrongAdded _ => 110802
  | wrongCount _ _ => 110802

/-- A clash in words. -/
def message : Clash → String
  | nothingShared left right =>
    "schemas in natural join must intersect: " ++ numbers left ++ " " ++ numbers right
  | columnTwice left right =>
    "schema has duplicate column number: " ++ numbers left ++ " " ++ numbers right
  | somethingShared left right =>
    "schemas of cartesian product operands must be disjoint: " ++ numbers left ++ " " ++
      numbers right
  | selectionTwice rows added arguments =>
    "column numbers in schemas must not have duplicates: " ++ numbers rows ++ ", " ++
      numbers added ++ ", " ++ numbers arguments
  | wrongAdded added => "invalid column numbers for tags: " ++ numbers added
  | wrongCount given added =>
    given.repr ++ " tag columns given for schema " ++ numbers added

end Clash

/-! ## 4. Faults -/

/-- How many spans a relation takes. -/
inductive Arity where
  | two
  | twoOrMore
  | oneOrMore
deriving DecidableEq

/-- The number of spans in words. -/
def Arity.text : Arity → String
  | .two => "2"
  | .twoOrMore => "2..n"
  | .oneOrMore => "1..n"

/-- The cause of a failure. -/
inductive Fault where
  /-- A pattern would define a tag that exists. -/
  | tagExists (tag : String)
  | tagMissing (tag : String)
  /-- Bounds in the wrong order. -/
  | malformed (start stop offset : Nat)
  | offsetsDiffer (operation : Operation)
  /-- Two spans with room between them cannot be merged. -/
  | apart (first second : Span)
  | arity (relation : String) (expected : Arity) (got : Nat)
  /-- Rows have no column of one of these numbers. -/
  | groupColumns (group out last : Nat)
  /-- A text is found in no column, or in several. -/
  | ambiguousColumn (needle : String) (found : Nat)
  | query (text : String) (flaw : Query.Flaw)
  | unknownPredicate (name : String)
  /-- A predicate names a column that the query does not have. -/
  | columnOutOfRange (column columns : Nat)
  | projection (columns : List Nat)
  | schema (clash : Clash)
  /-- No leaf of a query can be evaluated: none waits, or the node of this number waits and is no
  leaf. -/
  | nothingPending {node : Option Nat}
  /-- A finished part of a conjunction has no table. -/
  | emptyConjunction
  /-- A pattern that cannot be read. -/
  | pattern
deriving DecidableEq

namespace Fault

/-- No leaf waits. -/
def noLeafWaits : Fault := @nothingPending none

/-- A node waits that is no leaf. -/
def notLeaf (node : Nat) : Fault := @nothingPending (some node)

/-- The code of a failure. -/
def code : Fault → Nat
  | tagExists _ => 110101
  | tagMissing _ => 110106
  | malformed _ _ _ => 110203
  | offsetsDiffer operation => operation.code
  | apart _ _ => 110202
  | arity _ _ _ => 110306
  | groupColumns _ _ _ => 110401
  | ambiguousColumn _ _ => 110501
  | query _ flaw => flaw.code
  | unknownPredicate _ => 110613
  | columnOutOfRange _ _ => 110610
  | projection _ => 110605
  | schema clash => clash.code
  | nothingPending => 110615
  | emptyConjunction => 110616
  | pattern => 110107

/-- A failure in words. -/
def message : Fault → String
  | tagExists tag => "tag " ++ tag ++ " already in, did not overwrite"
  | tagMissing tag => "tag " ++ tag ++ " does not exist"
  | malformed start stop offset =>
    "invalid interval " ++ offset.repr ++ " (" ++ start.repr ++ ", " ++ stop.repr ++ ")"
  | offsetsDiffer operation =>
    operation.name ++ " requires locations to have the same offset"
  | apart first second =>
    "locations " ++ first.text ++ " and " ++ second.text ++
      " must intersect or meet to be merged"
  | arity relation expected got =>
    relation ++ " requires a " ++ expected.text ++ " tuple as input, got " ++ got.repr ++
      " locations"
  | groupColumns group out last =>
    "indices " ++ group.repr ++ " and " ++ out.repr ++ " are out of range [0, " ++
      last.repr ++ "]"
  | ambiguousColumn needle found =>
    "text " ++ String.ofList (quoted needle.toList) ++ " is in " ++ found.repr ++
      " columns, expected exactly one"
  | query text flaw =>
    "invalid syntax in query " ++ String.ofList (quoted text.toList) ++ ": " ++ flaw.message
  | unknownPredicate name => "invalid predicate in query: " ++ name
  | columnOutOfRange column columns =>
    "parameter " ++ column.repr ++ " of predicate out of range, query has " ++
      columns.repr ++ " tags"
  | projection columns => "invalid project columns in query: " ++ numbers columns
  | schema clash => clash.message
  | @nothingPending none => "query scheduler: no pending leaf to compute"
  | @nothingPending (some node) => "query scheduler: node " ++ node.repr ++ " is not a leaf"
  | emptyConjunction => "result of conjunction is empty, it should include a schema"
  | pattern => "the pattern cannot be read"

end Fault

/-! ## 5. Notices -/

/-- Something that went differently from what was asked. -/
inductive Notice where
  /-- The tag holds the span with these bounds already. -/
  | alreadyTagged (tag : String) (start stop : Nat)
  /-- A tag to be deleted does not exist. -/
  | unknownTag (tag : String)
  /-- These columns of a query hold nothing. -/
  | emptyColumns (columns : List String)
  /-- A query that has an answer was run again. -/
  | alreadyAnswered (query : String)
  /-- A predicate written by the user failed, and counted as false. -/
  | failedPredicate (name : String)
deriving DecidableEq

namespace Notice

/-- The code of a notice; a failing predicate of the user has none. -/
def code? : Notice → Option Nat
  | alreadyTagged _ _ _ => some 210102
  | unknownTag _ => some 210103
  | emptyColumns _ => some 210604
  | alreadyAnswered _ => some 210608
  | failedPredicate _ => none

/-- A notice in words. -/
def message : Notice → String
  | alreadyTagged tag start stop =>
    "tag " ++ tag ++ " already has location (" ++ start.repr ++ ", " ++ stop.repr ++ ")"
  | unknownTag tag => "tag " ++ tag ++ " to remove does not exist"
  | emptyColumns columns =>
    "tags in query are empty: " ++
      bracketed (columns.map fun c => String.ofList (quoted c.toList))
  | alreadyAnswered query => "query was already executed: " ++ query
  | failedPredicate name => "predicate " ++ name ++ " failed, counted as false"

end Notice

end TaggedText
