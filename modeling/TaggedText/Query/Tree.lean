/-
# Query trees

For evaluation, chains of one connective become one node with all their operands, so that an inner
node never has a part with its own connective.  The nodes are numbered as they are met from the root
down and from left to right, the root being 0: `Tree.entriesFrom` computes the numbers from the
sizes of the trees, `Tree.addTo` from how many nodes have been added so far.
-/
import TaggedText.Query.Expr

namespace TaggedText.Query

/-! ## 1. Leaves -/

/-- A predicate applied to columns. -/
structure Leaf where
  predicate : Predicate
  /-- The columns in the order of the predicate's arguments. -/
  arguments : List Nat
deriving DecidableEq

namespace Leaf

/-- The columns of a leaf, each once, in increasing order. -/
def columns (l : Leaf) : List Nat := l.arguments.mergeSort.eraseDups

/-- The arguments that a row over the leaf's columns gives to the predicate. -/
def rowArguments (l : Leaf) (row : Row) : Row :=
  (l.arguments.map l.columns.idxOf).filterMap fun place => row[place]?

/-- The predicate holds for a row over the leaf's columns. -/
def holds {m : Type → Type} [Monad m] (judge : Judge m) (l : Leaf) (row : Row) : m Bool :=
  l.predicate.holds judge (l.rowArguments row)

/-- A leaf in listings. -/
def text (l : Leaf) : String := l.predicate.text ++ Text.numbers l.arguments

end Leaf

/-! ## 2. Trees -/

/-- A query with chains of one connective drawn together. -/
inductive Tree where
  | leaf (l : Leaf)
  | node (connective : Connective) (parts : List Tree)

namespace Tree

/-- The operands of a chain of a connective, each as a tree. -/
def operands (connective : Connective) : Expr → List Tree
  | .leaf predicate arguments => [leaf ⟨predicate, arguments⟩]
  | .node c left right =>
    if c = connective then operands connective left ++ operands connective right
    else [node c (operands c left ++ operands c right)]

/-- The tree of an expression. -/
def ofExpr : Expr → Tree
  | .leaf predicate arguments => leaf ⟨predicate, arguments⟩
  | .node c left right => node c (operands c left ++ operands c right)

mutual

/-- The number of nodes. -/
def size : Tree → Nat
  | leaf _ => 1
  | node _ parts => 1 + sizes parts

/-- The number of nodes in several trees. -/
def sizes : List Tree → Nat
  | [] => 0
  | t :: rest => t.size + sizes rest

end

/-! ## 3. Numbered nodes -/

/-- A node by numbers. -/
structure Entry where
  content : Leaf ⊕ Connective
  parent : Option Nat
  children : List Nat
  depth : Nat

/-- The numbers of the roots of trees that follow each other, from a number on. -/
def roots (number : Nat) : List Tree → List Nat
  | [] => []
  | t :: rest => number :: roots (number + t.size) rest

mutual

/-- The nodes of a tree whose root has the given number. -/
def entriesFrom (number : Nat) (parent : Option Nat) (depth : Nat) : Tree → List Entry
  | leaf l => [⟨.inl l, parent, [], depth⟩]
  | node connective parts =>
    ⟨.inr connective, parent, roots (number + 1) parts, depth⟩ ::
      partEntries (number + 1) number (depth + 1) parts

/-- The nodes of trees that follow each other under one parent. -/
def partEntries (number parent depth : Nat) : List Tree → List Entry
  | [] => []
  | t :: rest =>
    entriesFrom number (some parent) depth t ++ partEntries (number + t.size) parent depth rest

end

/-- The nodes of a tree in the order of their numbers. -/
def entries (t : Tree) : List Entry := t.entriesFrom 0 none 0

/-- The numbers of the leaves. -/
def leafNumbers (t : Tree) : List Nat :=
  (t.entries.zipIdx.filter fun (entry, _) => entry.content.isLeft).map Prod.snd

/-! ## 4. Numbering while nodes are added -/

/-- The node with one more child. -/
def Entry.adopt (e : Entry) (child : Nat) : Entry := { e with children := e.children ++ [child] }

mutual

/-- The nodes after those of a tree were added.  A node's number is how many there were before it;
it is added without children, and gets each child when that has been added. -/
def addTo (nodes : List Entry) (parent : Option Nat) (depth : Nat) : Tree → List Entry
  | leaf l => nodes ++ [⟨.inl l, parent, [], depth⟩]
  | node connective parts =>
    addPartsTo (nodes ++ [⟨.inr connective, parent, [], depth⟩]) nodes.length (depth + 1) parts

/-- The nodes after those of trees that follow each other were added under one parent. -/
def addPartsTo (nodes : List Entry) (parent depth : Nat) : List Tree → List Entry
  | [] => nodes
  | t :: rest =>
    addPartsTo ((t.addTo nodes (some parent) depth).modify parent (·.adopt nodes.length))
      parent depth rest

end

/-- The nodes of an expression's tree. -/
def flatten (e : Expr) : List Entry := (ofExpr e).addTo [] none 0

end Tree

end TaggedText.Query
