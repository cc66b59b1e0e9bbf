/-
# Plans

A plan is a query tree with what has been computed so far: the tables each node holds, which nodes
are done, and for each leaf that waits an estimate of the rows it has to look at.

A leaf below a conjunction that holds tables is evaluated against their rows only: it **extends the
rows that the conjunction holds** by the columns it adds, and what comes out replaces them.  Below a
disjunction, what a leaf finds is added to what the disjunction holds.  What a finished inner node
holds is folded into its parent.
-/
import TaggedText.Query.Tree
import TaggedText.Query.Table
import TaggedText.Selection

namespace TaggedText.Query

/-! ## 1. Estimates -/

/-- The largest estimate; larger ones are cut down to it. -/
def largestEstimate : Nat := 18446744073709551615

/-- The sum of two estimates. -/
def estimateSum (a b : Nat) : Nat := min (a + b) largestEstimate

/-- The product of two estimates. -/
def estimateProduct (a b : Nat) : Nat := min (a * b) largestEstimate

/-- The spans of numbered columns. -/
def factors (columns : List (List Span)) (wanted : List Nat) : List (List Span) :=
  wanted.map fun c => columns[c]?.getD []

/-- The number of rows of the product of columns. -/
def productSize (columns : List (List Span)) (wanted : List Nat) : Nat :=
  (factors columns wanted).foldl (fun size spans => estimateProduct size spans.length) 1

/-- The columns of a leaf that a table lacks. -/
def Leaf.missing (l : Leaf) (t : Table) : List Nat :=
  l.columns.filter fun c => !t.columns.contains c

/-- The rows that a leaf has to look at: the product of its columns, or for each table that binds
it, the table's rows times the product of the columns that it adds.  The rows of a table that
shares no column with the leaf do not count, since the leaf is evaluated on its own then. -/
def Leaf.estimate (columns : List (List Span)) (bound : Option (List Table)) (l : Leaf) : Nat :=
  match bound with
  | none => productSize columns l.columns
  | some tables =>
    tables.foldl (fun total t =>
      let added := l.missing t
      let base := if added.length = l.columns.length then 1 else t.rows.length
      estimateSum total (estimateProduct base (productSize columns added))) 0

/-! ## 2. Evaluating a leaf -/

section Evaluation

variable {m : Type → Type} [Monad m]

/-- The rows over the leaf's own columns that it holds for. -/
def Leaf.select (judge : Judge m) (columns : List (List Span)) (l : Leaf) : m Table := do
  let rows ← Selection.select (l.holds judge) (factors columns l.columns)
  return ⟨l.columns, rows⟩

/-- An error or a value as an action without effects. -/
def liftFault {α : Type} (e : Except Fault α) : ExceptT Fault m α := ExceptT.mk (pure e)

/-- The rows of a table extended by a leaf.  A leaf that shares no column with the table is
evaluated on its own, once for all such tables. -/
def Leaf.extend (judge : Judge m) (columns : List (List Span)) (l : Leaf)
    (own : Option Table) (t : Table) : ExceptT Fault m (Option Table × Table) := do
  let added := l.missing t
  if added.length = l.columns.length then
    let own ← match own with
      | some own => pure own
      | none => ExceptT.lift (l.select judge columns)
    let crossed ← liftFault (t.cross own)
    return (some own, crossed)
  else
    let (output, rows) ← ExceptT.adapt Fault.schema <|
      Selection.extend (l.holds judge) t.rows (factors columns added)
        ⟨l.columns, t.columns, added⟩
    return (own, ⟨output, rows⟩)

/-- The extensions of several tables, added to those made already. -/
def Leaf.extendAll (judge : Judge m) (columns : List (List Span)) (l : Leaf) :
    Option Table → List Table → List Table → ExceptT Fault m (List Table)
  | _, made, [] => pure made
  | own, made, t :: rest => do
    let (own, extended) ← l.extend judge columns own t
    l.extendAll judge columns own (Table.union made [extended.dedup]) rest

/-- The tables for the leaf's parent, and the leaf's own rows. -/
def Leaf.evaluate (judge : Judge m) (columns : List (List Span)) (bound : Option (List Table))
    (l : Leaf) : ExceptT Fault m (List Table × Table) :=
  match bound with
  | none => do
    let own ← ExceptT.lift (l.select judge columns)
    return ([own], own)
  | some tables => do
    let made ← l.extendAll judge columns none [] tables
    let own : Table := ⟨l.columns, made.flatMap fun t => (t.project l.columns).rows⟩
    return (made, own.dedup)

end Evaluation

/-! ## 3. Plans -/

/-- A query tree with what has been computed. -/
inductive Plan where
  /-- A leaf with its estimate, and its own rows once it is evaluated. -/
  | leaf (l : Leaf) (estimate : Option Nat) (own : Option Table)
  | node (connective : Connective) (done : Bool) (held : List Table) (parts : List Plan)

namespace Plan

mutual

/-- The plan of a tree of which nothing has been computed. -/
def ofTree : Tree → Plan
  | .leaf l => leaf l none none
  | .node connective parts => node connective false [] (ofTrees parts)

/-- The plans of several trees. -/
def ofTrees : List Tree → List Plan
  | [] => []
  | t :: rest => ofTree t :: ofTrees rest

end

/-- Nothing below the node waits, and the node is folded into its parent. -/
def isDone : Plan → Bool
  | leaf _ _ own => own.isSome
  | node _ done _ _ => done

/-- The tables that the node holds. -/
def held : Plan → List Table
  | leaf _ _ own => own.toList
  | node _ _ held _ => held

mutual

/-- The tree that a plan was made for. -/
def tree : Plan → Tree
  | leaf l _ _ => .leaf l
  | node connective _ _ parts => .node connective (trees parts)

/-- The trees of several plans. -/
def trees : List Plan → List Tree
  | [] => []
  | p :: rest => p.tree :: trees rest

end

mutual

/-- The number of leaves. -/
def leafCount : Plan → Nat
  | leaf _ _ _ => 1
  | node _ _ _ parts => leafCounts parts

/-- The number of leaves in several plans. -/
def leafCounts : List Plan → Nat
  | [] => 0
  | p :: rest => p.leafCount + leafCounts rest

end

/-- The tables that bind what is below a node: those of the nearest conjunction that holds some. -/
def boundBelow (connective : Connective) (held : List Table) (bound : Option (List Table)) :
    Option (List Table) :=
  if connective = .conjunction ∧ !held.isEmpty then some held else bound

/-! ## 4. What a part leaves to its node -/

/-- What a finished part found is folded into its parent. -/
def absorb (connective : Connective) (held found : List Table) : Except Fault (List Table) :=
  match connective with
  | .disjunction => .ok (Table.union held found)
  | .conjunction =>
    if held.isEmpty then .ok found
    else if found.isEmpty then .error .emptyConjunction
    else Table.joinAll held found

/-- What a node holds once a part has been visited, given what it held before: a part that has been
finished just now is folded into it. -/
def absorbed (connective : Connective) (held : List Table) :
    Option (List Table) → Except Fault (List Table)
  | none => .ok held
  | some found => absorb connective held found

/-- What a leaf found is put into its parent: rows that a conjunction holds were the input of the
leaf and are replaced. -/
def deliver (connective : Connective) (held found : List Table) : List Table :=
  match connective with
  | .conjunction => found
  | .disjunction => Table.union held found

/-- What a node holds once a leaf has been evaluated below it, given what it held before: the leaf's
parent is given what the leaf found. -/
def delivered (connective : Connective) (held : List Table) : Option (List Table) → List Table
  | none => held
  | some found => deliver connective held found

section Evaluation

variable {m : Type → Type} [Monad m]

mutual

/-- The plan with the leaf of the given number evaluated, the root having the number `number`, and
the tables for its parent if that leaf is the plan itself. -/
def evaluateAt (judge : Judge m) (columns : List (List Span)) (target : Nat)
    (bound : Option (List Table)) (number : Nat) :
    Plan → ExceptT Fault m (Plan × Option (List Table))
  | leaf l _ _ => do
    let (made, own) ← l.evaluate judge columns bound
    return (leaf l (some own.rows.length) (some own), some made)
  | node connective done held parts =>
    if target = number then throw (.notLeaf target)
    else do
      let (parts, made) ←
        evaluateIn judge columns target (boundBelow connective held bound) (number + 1) parts
      return (node connective done (delivered connective held made) parts, none)

/-- The same for plans that follow each other. -/
def evaluateIn (judge : Judge m) (columns : List (List Span)) (target : Nat)
    (bound : Option (List Table)) (number : Nat) :
    List Plan → ExceptT Fault m (List Plan × Option (List Table))
  | [] => throw (.notLeaf target)
  | p :: rest =>
    if target < number + p.tree.size then do
      let (p, made) ← evaluateAt judge columns target bound number p
      return (p :: rest, made)
    else do
      let (rest, made) ← evaluateIn judge columns target bound (number + p.tree.size) rest
      return (p :: rest, made)

end

end Evaluation

/-! ## 5. Listings -/

/-- The dashes in front of a node's lines. -/
def dashes (depth : Nat) : String := String.join (List.replicate depth "---")

/-- The line of a table. -/
def tableLine (depth : Nat) (t : Table) : String :=
  dashes depth ++ "schema: " ++ Text.numbers t.columns ++ ", " ++ t.rows.length.repr ++
    " tuples\n"

mutual

/-- The lines of a plan: for each node what it is, what it holds, and whether it is done or what it
is estimated at. -/
def render (depth : Nat) : Plan → String
  | leaf l estimate own =>
    dashes depth ++ l.text ++ "\n" ++ String.join (own.toList.map (tableLine depth)) ++
      (match own, estimate with
      | some _, _ => dashes depth ++ "done\n"
      | none, some e => dashes depth ++ "estimate " ++ e.repr ++ " tuples\n"
      | none, none => "")
  | node connective done held parts =>
    dashes depth ++ connective.text ++ "\n" ++ String.join (held.map (tableLine depth)) ++
      (if done then dashes depth ++ "done\n" else "") ++ renderParts (depth + 1) parts

/-- The lines of several plans. -/
def renderParts (depth : Nat) : List Plan → String
  | [] => ""
  | p :: rest => render depth p ++ renderParts depth rest

end

/-- The listing of a plan. -/
def text (p : Plan) : String := p.render 0

end Plan

end TaggedText.Query
