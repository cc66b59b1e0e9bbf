/-
# Queries over tagged text

A query is built on references, which are its columns, and answered by the rows that it holds for,
each row once.  A predicate that names a column more than once means different spans of it: **each
repetition gets a column of its own**, a copy, behind the others.  Columns that the query does not
constrain take every span of their reference.

A query that has been answered keeps its answer.
-/
import TaggedText.Document
import TaggedText.Query.Scheduler

namespace TaggedText

/-- How far a query has got. -/
inductive Query.Stage where
  | unread
  | tokenized
  | parsed
  | flattened
  | scheduled
  | done
deriving DecidableEq

/-- A query, with its columns as they were when it was made. -/
structure Query where
  text : String
  columns : List (List Span)
  /-- The predicates of the user that the query knows. -/
  users : List String := []
  /-- The columns of the answer, all of them if there are none here. -/
  output : List Nat := []
  stage : Query.Stage := .unread
  answer : Option (List Row) := none

namespace Query

/-! ## 1. Making a query -/

/-- A query on a document, and a notice if some of its columns hold nothing. -/
def make [Pattern.Engine] (d : Document) (references : List Reference) (text : String) :
    Query × List Notice :=
  let columns := references.map (d.spansOf false)
  let empty := ((references.zip columns).filter fun (_, spans) => spans.isEmpty).map
    fun (reference, _) => reference.text
  ({ text := text, columns := columns }, if empty.isEmpty then [] else [.emptyColumns empty])

/-- The query with only these columns in its answer, in this order; no columns leave the query as
it is. -/
def project (q : Query) (output : List Nat) : Except Fault Query :=
  if output.eraseDups.length ≠ output.length ∨ output.any fun c => q.columns.length ≤ c then
    .error (.projection output)
  else .ok (if output.isEmpty then q else { q with output := output })

/-! ## 2. Repeated columns -/

/-- The arguments of a predicate with a new column for each one that came before, and the columns
with the copies. -/
def splitArguments (seen : List Nat) (columns : List (List Span)) :
    List Nat → List Nat × List (List Span)
  | [] => ([], columns)
  | c :: rest =>
    if seen.contains c then
      let (rest, all) := splitArguments seen (columns ++ [columns[c]?.getD []]) rest
      (columns.length :: rest, all)
    else
      let (rest, all) := splitArguments (c :: seen) columns rest
      (c :: rest, all)

/-- The expression with a new column for each repetition, and the columns with the copies. -/
def splitRepeated (columns : List (List Span)) : Expr → Expr × List (List Span)
  | .leaf predicate arguments =>
    let (arguments, columns) := splitArguments [] columns arguments
    (.leaf predicate arguments, columns)
  | .node connective left right =>
    let (left, columns) := splitRepeated columns left
    let (right, columns) := splitRepeated columns right
    (.node connective left right, columns)

/-! ## 3. Answers -/

/-- The rows of a table over the columns of an answer.  Columns that the table lacks take every
span. -/
def completeTable (columns : List (List Span)) (output : List Nat) (t : Table) :
    Except Fault (List Row) := do
  let wanted := output.mergeSort
  let kept := t.project wanted
  let free := wanted.filter fun c => !kept.columns.contains c
  let filled ← if free.isEmpty then pure kept
    else kept.cross ⟨free, Selection.product (factors columns free)⟩
  let places := output.filterMap filled.columns.idxOf?
  return filled.rows.map (Table.pick places)

/-- The rows of all tables over the columns of an answer, each once. -/
def complete (columns : List (List Span)) (output : List Nat) (tables : List Table) :
    Except Fault (List Row) :=
  (tables.mapM (completeTable columns output)).map fun rows => rows.flatten.eraseDups

/-- The rows of an expression, for the columns that its names stand for. -/
def rowsOf {m : Type → Type} [Monad m] (judge : Judge m) (columns : List (List Span))
    (output : List Nat) (e : Expr) : ExceptT Fault m (List Row) := do
  let (e, columns) := splitRepeated columns e
  let tables ← Scheduler.run judge columns (Tree.ofExpr e)
  let output := if output.isEmpty then List.range columns.length else output
  liftFault (complete columns output tables)

/-- The query after it was run, its answer or what was wrong with it, and a notice if it had an
answer before. -/
def execute {m : Type → Type} [Monad m] (judge : Judge m) (q : Query) :
    m (Query × Except Fault (List Row) × List Notice) := do
  match q.answer with
  | some rows => return (q, .ok rows, [.alreadyAnswered q.text])
  | none =>
    match tokenize q.text with
    | .error e => return (q, .error e, [])
    | .ok tokens =>
      match Expr.ofTokens q.text ⟨q.users, q.columns.length⟩ tokens with
      | .error e => return ({ q with stage := .tokenized }, .error e, [])
      | .ok e =>
        match ← (rowsOf judge q.columns q.output e).run with
        | .error e => return ({ q with stage := .scheduled }, .error e, [])
        | .ok rows => return ({ q with stage := .done, answer := some rows }, .ok rows, [])

end Query

end TaggedText
