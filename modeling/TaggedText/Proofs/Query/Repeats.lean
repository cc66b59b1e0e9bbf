/-
# Columns that a predicate names more than once

Each argument of a predicate that has come before in it stands for a column of its own, a copy
behind all other columns.  `Expr.repeats` lists these arguments over a whole query, from left to
right, and `Expr.renumbered` gives each of them the number of its copy.  **Splitting repeated
columns is the two of them together**: `splitRepeated_eq`.
-/
import TaggedText.Query
import TaggedText.Proofs.Query.Reading

namespace TaggedText

namespace Query

/-! ## 1. Repeated arguments -/

/-- The arguments that have come before, among these or in `seen`. -/
def repeated (seen : List Nat) : List Nat → List Nat
  | [] => []
  | c :: rest => if c ∈ seen then c :: repeated seen rest else repeated (c :: seen) rest

/-- The arguments with the next numbers in place of those that have come before. -/
def renumber (seen : List Nat) (next : Nat) : List Nat → List Nat
  | [] => []
  | c :: rest =>
    if c ∈ seen then next :: renumber seen (next + 1) rest else c :: renumber (c :: seen) next rest

/-- The repeated arguments of an expression, predicate by predicate from left to right. -/
def Expr.repeats : Expr → List Nat
  | leaf _ arguments => repeated [] arguments
  | node _ left right => left.repeats ++ right.repeats

/-- The expression with numbers from `next` on in place of its repeated arguments. -/
def Expr.renumbered (next : Nat) : Expr → Expr
  | leaf predicate arguments => leaf predicate (renumber [] next arguments)
  | node connective left right =>
    node connective (left.renumbered next) (right.renumbered (next + left.repeats.length))

/-- The copies of columns that an expression needs. -/
def Expr.copies (columns : List (List Span)) (e : Expr) : List (List Span) :=
  e.repeats.map fun c => columns[c]?.getD []

theorem renumber_ne_nil {seen arguments : List Nat} {next : Nat} (h : arguments ≠ []) :
    renumber seen next arguments ≠ [] := by
  cases arguments with
  | nil => exact absurd rfl h
  | cons c rest =>
    rw [renumber]
    split <;> simp

/-- **The new numbers are those of old columns or of copies.** -/
theorem lt_of_mem_renumber {n : Nat} : ∀ {seen arguments : List Nat} {next : Nat}, n ≤ next →
    (∀ c ∈ arguments, c < n) →
    ∀ c ∈ renumber seen next arguments, c < next + (repeated seen arguments).length
  | _, [], _, _, _ => by simp [renumber]
  | seen, c :: rest, next, hn, h => by
    obtain ⟨hc, hrest⟩ := List.forall_mem_cons.mp h
    rw [renumber, repeated]
    split
    · refine List.forall_mem_cons.mpr ⟨by simp, fun d hd => ?_⟩
      have := lt_of_mem_renumber (Nat.le_succ_of_le hn) hrest d hd
      rw [List.length_cons]
      omega
    · refine List.forall_mem_cons.mpr ⟨by omega, fun d hd => ?_⟩
      exact lt_of_mem_renumber hn hrest d hd

theorem Expr.applied_renumbered {n : Nat} : ∀ {e : Expr} {next : Nat}, n ≤ next → e.Applied n →
    (e.renumbered next).Applied (next + e.repeats.length)
  | leaf predicate arguments, next, hn, h => by
    obtain ⟨hne, hlt⟩ := applied_leaf.mp h
    exact applied_leaf.mpr ⟨renumber_ne_nil hne, lt_of_mem_renumber hn hlt⟩
  | node connective left right, next, hn, h => by
    obtain ⟨hleft, hright⟩ := applied_node.mp h
    have hleft' := applied_renumbered hn hleft
    have hright' : (right.renumbered (next + left.repeats.length)).Applied
        (next + left.repeats.length + right.repeats.length) :=
      applied_renumbered (by omega) hright
    rw [repeats, List.length_append, ← Nat.add_assoc]
    refine applied_node.mpr ⟨fun l hl => ⟨(hleft' l hl).1, fun c hc => ?_⟩, hright'⟩
    have := (hleft' l hl).2 c hc
    omega

/-! ## 2. Splitting -/

theorem splitArguments_eq (columns : List (List Span)) : ∀ (seen copies arguments),
    (∀ c ∈ arguments, c < columns.length) →
    splitArguments seen (columns ++ copies) arguments =
      (renumber seen (columns ++ copies).length arguments,
        columns ++ copies ++ (repeated seen arguments).map fun c => columns[c]?.getD [])
  | seen, copies, [], _ => by simp [splitArguments, renumber, repeated]
  | seen, copies, c :: rest, h => by
    obtain ⟨hc, hrest⟩ := List.forall_mem_cons.mp h
    rw [splitArguments, renumber, repeated]
    by_cases hseen : c ∈ seen
    · have hcopy : (columns ++ copies)[c]?.getD [] = columns[c]?.getD [] := by
        rw [List.getElem?_append_left hc]
      have ih := splitArguments_eq columns seen (copies ++ [columns[c]?.getD []]) rest hrest
      rw [← List.append_assoc] at ih
      rw [if_pos (List.contains_iff_mem.mpr hseen), if_pos hseen, if_pos hseen, hcopy, ih]
      simp [Nat.add_assoc]
    · have ih := splitArguments_eq columns (c :: seen) copies rest hrest
      simp only [List.contains_iff_mem, hseen, if_false, ih]

theorem splitRepeated_append (columns : List (List Span)) : ∀ (copies) {e : Expr},
    e.Applied columns.length →
    splitRepeated (columns ++ copies) e =
      (e.renumbered (columns ++ copies).length, columns ++ copies ++ e.copies columns)
  | copies, .leaf predicate arguments, h => by
    obtain ⟨-, hlt⟩ := Expr.applied_leaf.mp h
    rw [splitRepeated, splitArguments_eq columns [] copies arguments hlt]
    rfl
  | copies, .node connective left right, h => by
    obtain ⟨hleft, hright⟩ := Expr.applied_node.mp h
    have hcopies : (columns ++ (copies ++ left.copies columns)).length =
        (columns ++ copies).length + left.repeats.length := by
      simp [Expr.copies, Nat.add_assoc]
    rw [splitRepeated, splitRepeated_append columns copies hleft]
    simp only [List.append_assoc,
      splitRepeated_append columns (copies ++ left.copies columns) hright, hcopies]
    simp [Expr.renumbered, Expr.copies, Expr.repeats]

/-- **Splitting repeated columns** puts a copy of its column behind all others for every repeated
argument, and its number in the argument's place. -/
theorem splitRepeated_eq {columns : List (List Span)} {e : Expr} (h : e.Applied columns.length) :
    splitRepeated columns e = (e.renumbered columns.length, columns ++ e.copies columns) := by
  simpa using splitRepeated_append columns [] h

end Query

end TaggedText
