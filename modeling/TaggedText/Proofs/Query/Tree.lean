/-
# What a query tree means

A choice makes a leaf true or false; an "and" is true when all its operands are, an "or" when some
operand is.  **Drawing chains of one connective together changes neither what is true nor the
leaves**: `Tree.holds_ofExpr`, `Tree.leaves_ofExpr`.

Every leaf of a tree that stands for a query has columns, and every inner node has parts:
`Tree.Formed`.
-/
import TaggedText.Query.Tree

namespace TaggedText.Query

/-! ## 1. Going through a tree -/

namespace Tree

mutual

/-- What holds of leaves, and of nodes when it holds of their parts, holds of every tree. -/
theorem induct {P : Tree → Prop} (hleaf : ∀ l, P (leaf l))
    (hnode : ∀ connective parts, (∀ t ∈ parts, P t) → P (node connective parts)) : ∀ t, P t
  | leaf l => hleaf l
  | node connective parts => hnode connective parts (inducts hleaf hnode parts)

theorem inducts {P : Tree → Prop} (hleaf : ∀ l, P (leaf l))
    (hnode : ∀ connective parts, (∀ t ∈ parts, P t) → P (node connective parts)) :
    ∀ parts : List Tree, ∀ t ∈ parts, P t
  | [] => by simp
  | t :: rest =>
    List.forall_mem_cons.mpr ⟨induct hleaf hnode t, inducts hleaf hnode rest⟩

end

mutual

/-- The leaves from left to right. -/
def leaves : Tree → List Leaf
  | leaf l => [l]
  | node _ parts => leavesIn parts

/-- The leaves of several trees. -/
def leavesIn : List Tree → List Leaf
  | [] => []
  | t :: rest => t.leaves ++ leavesIn rest

end

theorem leavesIn_append : ∀ left right : List Tree,
    leavesIn (left ++ right) = leavesIn left ++ leavesIn right
  | [], right => rfl
  | t :: left, right => by
    rw [List.cons_append, leavesIn, leavesIn, leavesIn_append left right, List.append_assoc]

theorem mem_leavesIn {l : Leaf} : ∀ {parts : List Tree},
    l ∈ leavesIn parts ↔ ∃ t ∈ parts, l ∈ t.leaves
  | [] => by simp [leavesIn]
  | t :: rest => by simp [leavesIn, mem_leavesIn]

/-- The columns that the leaves use. -/
def used (t : Tree) : List Nat := t.leaves.flatMap Leaf.arguments

/-! ## 2. Truth -/

mutual

/-- The value of a tree, from the values of its leaves. -/
def holds (truth : Leaf → Bool) : Tree → Bool
  | leaf l => truth l
  | node .conjunction parts => holdsAll truth parts
  | node .disjunction parts => holdsAny truth parts

/-- All trees are true. -/
def holdsAll (truth : Leaf → Bool) : List Tree → Bool
  | [] => true
  | t :: rest => t.holds truth && holdsAll truth rest

/-- Some tree is true. -/
def holdsAny (truth : Leaf → Bool) : List Tree → Bool
  | [] => false
  | t :: rest => t.holds truth || holdsAny truth rest

end

variable {truth : Leaf → Bool}

theorem holdsAll_iff : ∀ {parts : List Tree},
    holdsAll truth parts = true ↔ ∀ t ∈ parts, t.holds truth = true
  | [] => by simp [holdsAll]
  | t :: rest => by simp [holdsAll, holdsAll_iff]

theorem holdsAny_iff : ∀ {parts : List Tree},
    holdsAny truth parts = true ↔ ∃ t ∈ parts, t.holds truth = true
  | [] => by simp [holdsAny]
  | t :: rest => by simp [holdsAny, holdsAny_iff]

theorem holdsAll_append : ∀ left right : List Tree,
    holdsAll truth (left ++ right) = (holdsAll truth left && holdsAll truth right)
  | [], right => by simp [holdsAll]
  | t :: left, right => by simp [holdsAll, holdsAll_append left right, Bool.and_assoc]

theorem holdsAny_append : ∀ left right : List Tree,
    holdsAny truth (left ++ right) = (holdsAny truth left || holdsAny truth right)
  | [], right => by simp [holdsAny]
  | t :: left, right => by simp [holdsAny, holdsAny_append left right, Bool.or_assoc]

end Tree

/-- Two values joined by a connective. -/
def Connective.apply : Connective → Bool → Bool → Bool
  | .conjunction => and
  | .disjunction => or

/-- The value of an expression, from the values of its leaves. -/
def Expr.holds (truth : Leaf → Bool) : Expr → Bool
  | leaf predicate arguments => truth ⟨predicate, arguments⟩
  | node connective left right => connective.apply (left.holds truth) (right.holds truth)

/-- The leaves of an expression from left to right. -/
def Expr.leaves : Expr → List Leaf
  | leaf predicate arguments => [⟨predicate, arguments⟩]
  | node _ left right => left.leaves ++ right.leaves

/-! ## 3. The tree of an expression -/

namespace Tree

variable {truth : Leaf → Bool}

/-- Parts of two lists under one connective. -/
theorem holds_node_append (connective : Connective) (left right : List Tree) :
    (node connective (left ++ right)).holds truth =
      connective.apply ((node connective left).holds truth)
        ((node connective right).holds truth) := by
  cases connective
  · exact holdsAll_append left right
  · exact holdsAny_append left right

theorem holds_node_singleton (connective : Connective) (t : Tree) :
    (node connective [t]).holds truth = t.holds truth := by
  cases connective <;> simp [holds, holdsAll, holdsAny]

/-- **The operands of a chain, under its connective, are worth what the expression is.** -/
theorem holds_operands : ∀ (connective : Connective) (e : Expr),
    (node connective (operands connective e)).holds truth = e.holds truth
  | connective, .leaf predicate arguments => holds_node_singleton _ _
  | connective, .node c left right => by
    rw [operands]
    split
    · next h =>
      rw [holds_node_append, holds_operands connective left, holds_operands connective right,
        ← h, Expr.holds]
    · rw [holds_node_singleton, holds_node_append, holds_operands c left,
        holds_operands c right, Expr.holds]

/-- **A tree is worth what its expression is.** -/
theorem holds_ofExpr : ∀ e : Expr, (ofExpr e).holds truth = e.holds truth
  | .leaf predicate arguments => rfl
  | .node c left right => by
    rw [ofExpr, holds_node_append, holds_operands, holds_operands, Expr.holds]

theorem leavesIn_operands : ∀ (connective : Connective) (e : Expr),
    leavesIn (operands connective e) = e.leaves
  | connective, .leaf predicate arguments => rfl
  | connective, .node c left right => by
    rw [operands]
    split
    · rw [leavesIn_append, leavesIn_operands connective left,
        leavesIn_operands connective right, Expr.leaves]
    · rw [leavesIn, leaves, leavesIn_append, leavesIn_operands c left,
        leavesIn_operands c right, leavesIn, List.append_nil, Expr.leaves]

/-- **The leaves of a tree are those of its expression**, in the same order. -/
theorem leaves_ofExpr : ∀ e : Expr, (ofExpr e).leaves = e.leaves
  | .leaf predicate arguments => rfl
  | .node c left right => by
    rw [ofExpr, leaves, leavesIn_append, leavesIn_operands, leavesIn_operands, Expr.leaves]

/-! ## 4. Trees that stand for queries -/

/-- Every leaf has columns, and every inner node has parts. -/
inductive Formed : Tree → Prop
  | leaf {l : Leaf} (arguments : l.arguments ≠ []) : Formed (leaf l)
  | node {connective : Connective} {parts : List Tree} (nonempty : parts ≠ [])
      (formed : ∀ t ∈ parts, Formed t) : Formed (node connective parts)

theorem operands_ne_nil : ∀ (connective : Connective) (e : Expr), operands connective e ≠ []
  | _, .leaf _ _ => by simp [operands]
  | connective, .node c left right => by
    rw [operands]
    split
    · simp [operands_ne_nil connective left]
    · simp

theorem formed_operands : ∀ (connective : Connective) {e : Expr},
    (∀ l ∈ e.leaves, l.arguments ≠ []) → ∀ t ∈ operands connective e, t.Formed
  | connective, .leaf predicate arguments, h => by
    simpa [operands] using Formed.leaf (h ⟨predicate, arguments⟩ (by simp [Expr.leaves]))
  | connective, .node c left right, h => by
    simp only [Expr.leaves, List.forall_mem_append] at h
    rw [operands]
    split
    · exact List.forall_mem_append.mpr
        ⟨formed_operands connective h.1, formed_operands connective h.2⟩
    · refine List.forall_mem_singleton.mpr (.node (by simp [operands_ne_nil]) ?_)
      exact List.forall_mem_append.mpr ⟨formed_operands c h.1, formed_operands c h.2⟩

/-- **The tree of an expression is formed** when each of its predicates has columns. -/
theorem formed_ofExpr : ∀ {e : Expr}, (∀ l ∈ e.leaves, l.arguments ≠ []) → (ofExpr e).Formed
  | .leaf predicate arguments, h => .leaf (h ⟨predicate, arguments⟩ (by simp [Expr.leaves]))
  | .node c left right, h => by
    simp only [Expr.leaves, List.forall_mem_append] at h
    exact .node (by simp [operands_ne_nil])
      (List.forall_mem_append.mpr ⟨formed_operands c h.1, formed_operands c h.2⟩)

end Tree

end TaggedText.Query
