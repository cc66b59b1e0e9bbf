/-
# Sorting spans into groups

Two ways to group: the members of clusters that also belong to given categories, compared by their
position in the text, and the values of one column of rows by the bounds in another.
-/
import TaggedText.Relation

namespace TaggedText.Spans

/-! ## 1. Categories -/

/-- Position in the text is compared by the start first, then by the stop. -/
def compareBounds (a b : Nat × Nat) : Ordering :=
  (Ord.compare a.1 b.1).then (Ord.compare a.2 b.2)

/-- The members of a cluster that are met when cluster and category are gone through side by side,
always advancing the one that is behind. -/
def common : List Span → List Span → List Span
  | a :: cluster, b :: category =>
    match compareBounds a.bounds b.bounds with
    | .eq => a :: common cluster category
    | .lt => common cluster (b :: category)
    | .gt => common (a :: cluster) category
  | _, _ => []
termination_by cluster category => cluster.length + category.length

/-- For each category, the common members of every cluster. -/
def categorize (clusters categories : List (List Span)) : List (List (List Span)) :=
  categories.map fun category => clusters.map fun cluster => common cluster category

/-! ## 2. Groups of rows -/

/-- Groups with the bounds they are for, in the order in which the bounds appeared first. -/
abbrev Groups := List ((Nat × Nat) × List Span)

/-- A value is put at the end of its group, which is made at the end if there is none. -/
def Groups.add (key : Nat × Nat) (value : Span) : Groups → Groups
  | [] => [(key, [value])]
  | (k, values) :: rest =>
    if k = key then (k, values ++ [value]) :: rest else (k, values) :: Groups.add key value rest

/-- A row's value is put into the group for its key; a row that lacks a column is left out. -/
def Groups.addRow (group out : Nat) (groups : Groups) (row : Row) : Groups :=
  match row[group]?, row[out]? with
  | some key, some value => groups.add (key.start, key.stop) value
  | _, _ => groups

/-- The values of one column, grouped by the bounds in another. -/
def groupBy (rows : List Row) (group out : Nat) : Except Fault (List (List Span)) :=
  match rows with
  | [] => .ok []
  | first :: _ =>
    if first.length ≤ group ∨ first.length ≤ out then
      .error (.groupColumns group out (first.length - 1))
    else .ok ((rows.foldl (Groups.addRow group out) []).map Prod.snd)

end TaggedText.Spans
