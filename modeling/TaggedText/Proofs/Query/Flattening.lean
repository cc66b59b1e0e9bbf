/-
# What a query's list of nodes says

The nodes of an expression, as they are added one by one, are the nodes of its tree
(`Tree.flatten_eq_entries`), so the list alone shows what the expression says.

`Values` is how the list is read: each leaf has a value of its own, an "and" is true when all its
children are, an "or" when some child is.  **The list can be read in one way only, and its root is
worth what the expression is**: `At.value`, `exists_values`.  `Alternating` says that every chain of
one connective has been drawn together.

`Tree.flattening_lists_in_preorder` puts all that together.
-/
import TaggedText.Proofs.Query.Numbering

namespace TaggedText.Query

/-! ## 1. Values by leaves -/

/-- What a connective makes of the values of all its operands. -/
def Connective.among : Connective → List Bool → Bool
  | .conjunction, values => values.all id
  | .disjunction, values => values.any id

theorem Connective.among_append (c : Connective) (left right : List Bool) :
    c.among (left ++ right) = c.apply (c.among left) (c.among right) := by
  cases c
  · exact List.all_append
  · exact List.any_append

theorem Connective.among_singleton (c : Connective) (value : Bool) :
    c.among [value] = value := by
  cases c <;> simp [among]

/-- The value of an expression, from the values of its leaves by their places, which are counted
from a number on. -/
def Expr.valueFrom (truth : Nat → Bool) (k : Nat) : Expr → Bool
  | leaf _ _ => truth k
  | node connective left right =>
    connective.apply (left.valueFrom truth k) (right.valueFrom truth (k + left.leaves.length))

namespace Tree

mutual

/-- The value of a tree, from the values of its leaves by their places. -/
def valueFrom (truth : Nat → Bool) (k : Nat) : Tree → Bool
  | leaf _ => truth k
  | node connective parts => connective.among (valuesFrom truth k parts)

/-- The values of trees that follow each other. -/
def valuesFrom (truth : Nat → Bool) (k : Nat) : List Tree → List Bool
  | [] => []
  | t :: rest => t.valueFrom truth k :: valuesFrom truth (k + t.leaves.length) rest

end

variable {truth : Nat → Bool}

theorem valuesFrom_append : ∀ (k : Nat) (left right : List Tree),
    valuesFrom truth k (left ++ right) =
      valuesFrom truth k left ++ valuesFrom truth (k + (leavesIn left).length) right
  | _, [], _ => rfl
  | k, t :: left, right => by
    rw [List.cons_append, valuesFrom, valuesFrom, valuesFrom_append _ left right, leavesIn,
      List.length_append, Nat.add_assoc, List.cons_append]

/-- **Operands under their connective are worth what the expression is**, place by place. -/
theorem among_operands : ∀ (c : Connective) (k : Nat) (e : Expr),
    c.among (valuesFrom truth k (operands c e)) = e.valueFrom truth k
  | c, _, .leaf _ _ => c.among_singleton _
  | c, k, .node c' left right => by
    have hchain (c : Connective) :
        c.among (valuesFrom truth k (operands c left ++ operands c right)) =
          (Expr.node c left right).valueFrom truth k := by
      rw [valuesFrom_append, c.among_append, leavesIn_operands, among_operands c k left,
        among_operands c _ right, Expr.valueFrom]
    rw [operands]
    split
    · next h =>
      rw [h]
      exact hchain c
    · exact (c.among_singleton _).trans (hchain c')

theorem valueFrom_ofExpr (k : Nat) : ∀ e : Expr,
    (ofExpr e).valueFrom truth k = e.valueFrom truth k
  | .leaf _ _ => rfl
  | .node c left right => by
    rw [ofExpr, valueFrom, valuesFrom_append, c.among_append, leavesIn_operands, among_operands,
      among_operands, Expr.valueFrom]

/-! ## 2. Reading a list of nodes -/

/-- What a listed node is worth, `k` being the place of its leaf if it is one. -/
def Entry.worth (truth value : Nat → Bool) (k : Nat) (e : Entry) : Bool :=
  match e.content with
  | .inl _ => truth k
  | .inr c => c.among (e.children.map value)

/-- **The values of listed nodes**: a leaf has that of its place among the leaves, an "and" is true
when all its children are, an "or" when some child is. -/
def Values (entries : List Entry) (truth value : Nat → Bool) : Prop :=
  ∀ (i : Nat) (e : Entry), entries[i]? = some e →
    value i = e.worth truth value (listedLeaves (entries.take i)).length

theorem Entry.worth_congr {e : Entry} {value value' : Nat → Bool}
    (h : ∀ j ∈ e.children, value j = value' j) (k : Nat) :
    e.worth truth value k = e.worth truth value' k := by
  cases hcontent : e.content with
  | inl l => simp only [worth, hcontent]
  | inr c => simp only [worth, hcontent, List.map_congr_left h]

/-- Every list whose children come behind their parents can be read, from its back. -/
theorem exists_values {entries : List Entry}
    (h : ∀ (i : Nat) (e : Entry), entries[i]? = some e → ∀ j ∈ e.children, i < j) :
    ∃ value, Values entries truth value := by
  -- the induction is on how many nodes at the back have got their values
  have hback : ∀ n, ∃ value : Nat → Bool, ∀ (i : Nat) (e : Entry), entries.length ≤ i + n →
      entries[i]? = some e →
      value i = e.worth truth value (listedLeaves (entries.take i)).length := by
    intro n
    induction n with
    | zero =>
      refine ⟨fun _ => false, fun i e hi hlisted => ?_⟩
      obtain ⟨hlt, -⟩ := List.getElem?_eq_some_iff.mp hlisted
      omega
    | succ n ih =>
      obtain ⟨value, hvalue⟩ := ih
      let next (i : Nat) : Bool :=
        if entries.length ≤ i + n then value i
        else (entries[i]?.map fun e =>
          e.worth truth value (listedLeaves (entries.take i)).length).getD false
      refine ⟨next, fun i e hi hlisted => ?_⟩
      have hchildren : ∀ j ∈ e.children, value j = next j := by
        intro j hj
        have := h i e hlisted j hj
        exact (if_pos (by omega)).symm
      rw [← e.worth_congr hchildren]
      by_cases hold : entries.length ≤ i + n
      · exact (if_pos hold).trans (hvalue i e hold hlisted)
      · exact (if_neg hold).trans (by rw [hlisted, Option.map_some, Option.getD_some])
  obtain ⟨value, hvalue⟩ := hback entries.length
  exact ⟨value, fun i e => hvalue i e (Nat.le_add_left _ i)⟩

/-- **Read off the list, a part is worth what it is worth in the tree.** -/
theorem At.value {t : Tree} {value : Nat → Bool} (hvalues : Values t.entries truth value) :
    ∀ {s : Tree} {i k : Nat} {parent : Option Nat}, At t i parent k s →
      value i = s.valueFrom truth k := by
  intro s
  induction s using Tree.induct with
  | hleaf l =>
    intro i k parent h
    obtain ⟨depth, hlisted⟩ := h.listed
    rw [hvalues i _ hlisted, h.take]
    rfl
  | hnode connective parts ih =>
    intro i k parent h
    have hparts : ∀ rest before, parts = before ++ rest →
        (roots (i + 1 + sizes before) rest).map value =
          valuesFrom truth (k + (leavesIn before).length) rest := by
      intro rest
      induction rest with
      | nil => exact fun _ _ => rfl
      | cons s rest ihrest =>
        intro before hsplit
        have hrest := ihrest (before ++ [s]) (by rw [hsplit, List.append_assoc]; rfl)
        rw [sizes_append, leavesIn_append, List.length_append] at hrest
        simp only [sizes, leavesIn, List.append_nil, Nat.add_zero, ← Nat.add_assoc] at hrest
        subst hsplit
        rw [roots, List.map_cons, valuesFrom, ih s (by simp) (.part h), hrest]
    obtain ⟨depth, hlisted⟩ := h.listed
    rw [hvalues i _ hlisted, h.take, valueFrom]
    exact congrArg connective.among (hparts parts [] rfl)

/-- The root is worth what the tree is, and there is a way to read the list. -/
theorem values_entries (t : Tree) :
    (∃ value, Values t.entries truth value) ∧
      ∀ value, Values t.entries truth value → value 0 = t.valueFrom truth 0 := by
  constructor
  · refine exists_values fun i e hlisted j hj => ?_
    obtain ⟨e', hlisted', hparent⟩ := (mem_children_iff t i j).mp ⟨e, hlisted, hj⟩
    exact (inPreorder_entries t).parent_lt j e' i hlisted' hparent
  · intro value hvalues
    exact At.value hvalues .root

/-! ## 3. Chains of one connective -/

/-- An inner node has two parts, and none of its own kind. -/
inductive Alternates : Tree → Prop
  | leaf {l : Leaf} : Alternates (leaf l)
  | node {connective : Connective} {parts : List Tree} (two : 2 ≤ parts.length)
      (other : ∀ t ∈ parts, ∀ parts', t ≠ node connective parts')
      (alternates : ∀ t ∈ parts, Alternates t) : Alternates (node connective parts)

/-- What is drawn together on two sides of a connective. -/
theorem alternates_node {c : Connective} {left right : List Tree} (hleft : left ≠ [])
    (hright : right ≠ [])
    (h : ∀ t ∈ left ++ right, t.Alternates ∧ ∀ parts, t ≠ node c parts) :
    (node c (left ++ right)).Alternates := by
  have := List.length_pos_iff.mpr hleft
  have := List.length_pos_iff.mpr hright
  refine .node ?_ (fun t ht => (h t ht).2) fun t ht => (h t ht).1
  rw [List.length_append]
  omega

theorem alternates_operands : ∀ (c : Connective) (e : Expr), ∀ t ∈ operands c e,
    t.Alternates ∧ ∀ parts, t ≠ node c parts
  | c, .leaf predicate arguments => by
    intro t ht
    rw [operands, List.mem_singleton] at ht
    subst ht
    constructor
    · exact .leaf
    · intro parts h
      cases h
  | c, .node c' left right => by
    have hchain (c : Connective) : ∀ t ∈ operands c left ++ operands c right,
        t.Alternates ∧ ∀ parts, t ≠ node c parts :=
      List.forall_mem_append.mpr ⟨alternates_operands c left, alternates_operands c right⟩
    rw [operands]
    split
    · exact hchain c
    · next hother =>
      intro t ht
      rw [List.mem_singleton] at ht
      subst ht
      constructor
      · exact alternates_node (operands_ne_nil c' left) (operands_ne_nil c' right) (hchain c')
      · intro parts h
        cases h
        exact hother rfl

theorem alternates_ofExpr : ∀ e : Expr, (ofExpr e).Alternates
  | .leaf _ _ => .leaf
  | .node c left right =>
    alternates_node (operands_ne_nil c left) (operands_ne_nil c right)
      (List.forall_mem_append.mpr ⟨alternates_operands c left, alternates_operands c right⟩)

theorem At.alternates {t s : Tree} {i k : Nat} {parent : Option Nat} (h : At t i parent k s)
    (ht : t.Alternates) : s.Alternates := by
  induction h with
  | root => exact ht
  | part _ ih =>
    cases ih with
    | node _ _ alternates => exact alternates _ (by simp)

/-- **Chains of one connective have been drawn together**: an inner node has two children or more,
and none of them has its connective. -/
structure Alternating (entries : List Entry) : Prop where
  childless : ∀ (i : Nat) (e : Entry) (l : Leaf), entries[i]? = some e → e.content = .inl l →
    e.children = []
  two : ∀ (i : Nat) (e : Entry) (c : Connective), entries[i]? = some e → e.content = .inr c →
    2 ≤ e.children.length
  other : ∀ (i j : Nat) (e e' : Entry) (c : Connective), entries[i]? = some e →
    e.content = .inr c → j ∈ e.children → entries[j]? = some e' → e'.content ≠ .inr c

theorem alternating_entries {t : Tree} (ht : t.Alternates) : Alternating t.entries where
  childless i e l hlisted hcontent := by
    obtain ⟨parent, k, s, depth, -, rfl⟩ := exists_at hlisted
    cases s with
    | leaf l => rfl
    | node c parts => cases hcontent
  two i e c hlisted hcontent := by
    obtain ⟨parent, k, s, depth, hat, rfl⟩ := exists_at hlisted
    cases hat.alternates ht with
    | leaf => cases hcontent
    | node two _ _ => exact (length_roots _ _).symm ▸ two
  other i j e e' c hlisted hcontent hj hlisted' hcontent' := by
    obtain ⟨parent, k, s, depth, hat, rfl⟩ := exists_at hlisted
    cases hat.alternates ht with
    | leaf => cases hcontent
    | node _ other _ =>
      obtain ⟨before, u, after, rfl, rfl⟩ := mem_roots.mp hj
      obtain ⟨_, hpart⟩ := (At.part hat).listed
      obtain rfl := Option.some_inj.mp (hpart.symm.trans hlisted')
      cases u with
      | leaf l => cases hcontent'
      | node c' parts =>
        cases hcontent
        cases hcontent'
        exact other _ (by simp) parts rfl

/-! ## 4. The list of an expression -/

theorem flatten_eq_entries (e : Expr) : flatten e = (ofExpr e).entries := addTo_eq [] none 0 _

/-- **The nodes of an expression say what the expression says**: however its leaves are valued, the
list can be read, and its root is worth what the expression is; the leaves stand in the list as they
stand in the expression; chains of one connective have been drawn together; and the nodes are
numbered from the root down and from left to right. -/
theorem flattening_lists_in_preorder (e : Expr) :
    (∀ truth, (∃ value, Values (flatten e) truth value) ∧
      ∀ value, Values (flatten e) truth value → value 0 = e.valueFrom truth 0) ∧
    listedLeaves (flatten e) = e.leaves ∧
    Alternating (flatten e) ∧
    InPreorder (flatten e) := by
  rw [flatten_eq_entries]
  refine ⟨fun truth => ?_, ?_, alternating_entries (alternates_ofExpr e), inPreorder_entries _⟩
  · rw [← valueFrom_ofExpr]
    exact values_entries (ofExpr e)
  · rw [entries, listedLeaves_entriesFrom, leaves_ofExpr]

end Tree

end TaggedText.Query
