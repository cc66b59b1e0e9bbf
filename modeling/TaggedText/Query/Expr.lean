/-
# Query expressions

A query is a predicate applied to columns, or two queries joined by "and" or "or".  "And" binds
tighter, both associate to the left, and parentheses group.

Expressions are read token by token.  What has been read of an unfinished part is kept in a frame:
the alternatives joined by "or" so far, and the conjunction that the next operand continues.  Each
open parenthesis puts the frame around it on a stack.
-/
import TaggedText.Query.Lexer
import TaggedText.Query.Predicate

namespace TaggedText.Query

/-- How parts of a query are joined. -/
inductive Connective where
  | conjunction
  | disjunction
deriving DecidableEq

/-- The word of a connective. -/
def Connective.text : Connective → String
  | .conjunction => "and"
  | .disjunction => "or"

/-- A query as it is written. -/
inductive Expr where
  | leaf (predicate : Predicate) (columns : List Nat)
  | node (connective : Connective) (left right : Expr)
deriving DecidableEq

/-- An expression in listings. -/
def Expr.text : Expr → String
  | leaf predicate columns => predicate.text ++ Text.numbers columns
  | node connective left right =>
    "(" ++ connective.text ++ " " ++ left.text ++ " " ++ right.text ++ ")"

namespace Expr

/-! ## 1. Frames -/

/-- What has been read of a part in front of its next operand. -/
structure Frame where
  alternatives : Option Expr := none
  conjuncts : Option Expr := none
deriving DecidableEq

/-- The connective puts an expression behind another one, if there is one. -/
def joinTo (connective : Connective) (left : Option Expr) (right : Expr) : Expr :=
  match left with
  | none => right
  | some left => node connective left right

/-- What is expected next. -/
inductive Expecting where
  | operand (frame : Frame)
  /-- An operator or the end; the conjunction read last is given. -/
  | operator (alternatives : Option Expr) (conjunction : Expr)
  /-- The parenthesis before the columns of a predicate. -/
  | opening (frame : Frame) (predicate : Predicate)
  /-- A column of a predicate. -/
  | column (frame : Frame) (predicate : Predicate) (columns : List Nat)
  /-- A comma or the closing parenthesis behind a column. -/
  | separator (frame : Frame) (predicate : Predicate) (columns : List Nat)
deriving DecidableEq

/-- How far the reading has got: the frames around open parentheses, the innermost first, and what
is expected. -/
structure Reading where
  outer : List Frame := []
  expecting : Expecting := .operand {}
deriving DecidableEq

/-- An operand is complete. -/
def Reading.complete (outer : List Frame) (frame : Frame) (operand : Expr) : Reading :=
  ⟨outer, .operator frame.alternatives (joinTo .conjunction frame.conjuncts operand)⟩

/-! ## 2. Reading -/

/-- What names mean in a query: the predicates of the user, and the number of columns. -/
structure Vocabulary where
  users : List String
  columns : Nat

/-- A predicate may be applied to this number of columns. -/
def checkArity : Predicate → Nat → Except Fault Unit
  | .relation r, got => r.checkArity got
  | _, _ => .ok ()

/-- The next token of a query with the given text. -/
def step (text : String) (v : Vocabulary) (r : Reading) (token : Token) :
    Except Fault Reading :=
  match r.expecting, token with
  | .operand frame, .opening => .ok ⟨frame :: r.outer, .operand {}⟩
  | .operand frame, .name name =>
    match Predicate.ofName? v.users name with
    | some predicate => .ok ⟨r.outer, .opening frame predicate⟩
    | none => .error (.unknownPredicate name)
  | .operand frame, .distance comparison n =>
    .ok ⟨r.outer, .opening frame (.distance comparison n)⟩
  | .operand _, .conjunction => .error (.query text (.misplacedOperator .conjunction))
  | .operand _, .disjunction => .error (.query text (.misplacedOperator .disjunction))
  | .operand _, token => .error (.query text (.unexpected token))
  | .opening frame predicate, .opening => .ok ⟨r.outer, .column frame predicate []⟩
  | .opening _ _, token => .error (.query text (.parameters (some token)))
  | .column frame predicate columns, .number n =>
    if n < v.columns then .ok ⟨r.outer, .separator frame predicate (columns ++ [n])⟩
    else .error (.columnOutOfRange n v.columns)
  | .column _ _ _, token => .error (.query text (.parameters (some token)))
  | .separator frame predicate columns, .comma =>
    .ok ⟨r.outer, .column frame predicate columns⟩
  | .separator frame predicate columns, .closing =>
    (checkArity predicate columns.length).map fun _ =>
      .complete r.outer frame (leaf predicate columns)
  | .separator _ _ _, token => .error (.query text (.parameters (some token)))
  | .operator alternatives conjunction, .conjunction =>
    .ok ⟨r.outer, .operand ⟨alternatives, some conjunction⟩⟩
  | .operator alternatives conjunction, .disjunction =>
    .ok ⟨r.outer, .operand ⟨some (joinTo .disjunction alternatives conjunction), none⟩⟩
  | .operator alternatives conjunction, token =>
    match r.outer, token with
    | frame :: outer, .closing =>
      .ok (.complete outer frame (joinTo .disjunction alternatives conjunction))
    | [], .closing => .error (.query text .closingUnmatched)
    | _ :: _, token => .error (.query text (.closingExpected token))
    | [], token => .error (.query text (.operatorExpected token))

/-- The end of a query. -/
def finish (text : String) (r : Reading) : Except Fault Expr :=
  match r.expecting, r.outer with
  | .operator alternatives conjunction, [] =>
    .ok (joinTo .disjunction alternatives conjunction)
  | .operator _ _, _ :: _ => .error (.query text .closingMissing)
  | .operand _, _ => .error (.query text .endsBeforePredicate)
  | _, _ => .error (.query text (.parameters none))

/-- The tokens from a point of the reading on. -/
def readFrom (text : String) (v : Vocabulary) (r : Reading) : List Token → Except Fault Expr
  | [] => finish text r
  | token :: rest => (step text v r token).bind fun r => readFrom text v r rest

/-- The expression that tokens write; the text of the query is for messages only. -/
def ofTokens (text : String) (v : Vocabulary) (tokens : List Token) : Except Fault Expr :=
  if tokens.isEmpty then .error (.query text .empty) else readFrom text v {} tokens

/-- The expression that a text writes. -/
def read (v : Vocabulary) (text : String) : Except Fault Expr :=
  (tokenize text).bind (ofTokens text v)

end Expr

end TaggedText.Query
