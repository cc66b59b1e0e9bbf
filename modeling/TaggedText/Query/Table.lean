/-
# Tables

A table has rows of spans and the numbers of their columns.  Partial answers of a query are lists
of tables with different columns; read as a condition on a choice of one span per column, a table
asks that the choice, cut down to its columns, is one of its rows, and a list asks this of one of
its tables.  Then a union is "or", and joining every table of one list with every table of another
is "and".
-/
import TaggedText.Fault

namespace TaggedText.Query

/-- Rows, and the column number of each place in them. -/
structure Table where
  columns : List Nat
  rows : List Row
deriving DecidableEq

namespace Table

/-! ## 1. One table -/

/-- The table with each row once, in the order of first appearance. -/
def dedup (t : Table) : Table := { t with rows := t.rows.eraseDups }

/-- The spans of a row at some places. -/
def pick (places : List Nat) (row : Row) : Row := places.filterMap fun i => row[i]?

/-- The table with only those of its columns that are wanted, in its own order.  Rows that become
the same are kept once; a table that loses no column is left as it is. -/
def project (t : Table) (wanted : List Nat) : Table :=
  let places := (List.range t.columns.length).filter fun i =>
    t.columns[i]?.any wanted.contains
  if places.length = t.columns.length then t
  else
    { columns := places.filterMap fun i => t.columns[i]?
      rows := (t.rows.map (pick places)).eraseDups }

/-! ## 2. Two tables -/

/-- Where a column of a combined row comes from. -/
inductive Side where
  | left (place : Nat)
  | right (place : Nat)
deriving DecidableEq

/-- The columns of both, in increasing order. -/
def combinedColumns (left right : List Nat) : List Nat :=
  (left ++ right.filter fun c => !left.contains c).mergeSort

/-- Where the columns of both come from; shared ones come from the left. -/
def sides (left right : List Nat) : List Side :=
  (combinedColumns left right).map fun column =>
    match left.idxOf? column with
    | some i => .left i
    | none => .right (right.idxOf column)

/-- A row put together out of two. -/
def combine (sides : List Side) (left right : Row) : Row :=
  sides.filterMap fun side =>
    match side with
    | .left i => left[i]?
    | .right i => right[i]?

/-- Rows with the keys they are matched by. -/
abbrev Keyed := List (Row × Row)

/-- The rows with their keys, sorted by key; rows with the same key keep their order. -/
def keyed (places : List Nat) (rows : List Row) : Keyed :=
  (rows.map fun row => (pick places row, row)).mergeSort fun a b => Row.le a.1 b.1

/-- The pairs of rows with the same key, found by going through both sides in the order of their
keys.  Where the keys agree, the blocks of that key on both sides are paired. -/
def matching (left right : Keyed) : List (Row × Row) :=
  match left, right with
  | l :: ls, r :: rs =>
    match Ord.compare l.1 r.1 with
    | .lt => matching ls (r :: rs)
    | .gt => matching (l :: ls) rs
    | .eq =>
      let here := fun (entry : Row × Row) => entry.1 == l.1
      let fromLeft := l :: ls.takeWhile here
      let fromRight := r :: rs.takeWhile here
      (fromLeft.flatMap fun a => fromRight.map fun b => (a.2, b.2)) ++
        matching (ls.dropWhile here) (rs.dropWhile here)
  | _, _ => []
termination_by left.length + right.length
decreasing_by
  · simp only [List.length_cons]; omega
  · simp only [List.length_cons]; omega
  · have h₁ : (ls.dropWhile fun entry => entry.1 == l.1).length ≤ ls.length :=
      (List.dropWhile_sublist _).length_le
    have h₂ : (rs.dropWhile fun entry => entry.1 == l.1).length ≤ rs.length :=
      (List.dropWhile_sublist _).length_le
    simp only [List.length_cons]
    omega

/-- The join of two tables on the columns they share. -/
def join (left right : Table) : Except Fault Table :=
  let shared := left.columns.filter right.columns.contains
  if shared.isEmpty then .error (.schema (.nothingShared left.columns right.columns))
  else if left.columns.eraseDups ≠ left.columns ∨ right.columns.eraseDups ≠ right.columns then
    .error (.schema (.columnTwice left.columns right.columns))
  else
    let sides := sides left.columns right.columns
    .ok
      { columns := combinedColumns left.columns right.columns
        rows := (matching
            (keyed (shared.filterMap left.columns.idxOf?) left.rows)
            (keyed (shared.filterMap right.columns.idxOf?) right.rows)).map
          fun (l, r) => combine sides l r }

/-- Every row of one table with every row of another; they may not share a column. -/
def cross (left right : Table) : Except Fault Table :=
  if left.columns.any right.columns.contains then
    .error (.schema (.somethingShared left.columns right.columns))
  else
    let sides := sides left.columns right.columns
    .ok
      { columns := combinedColumns left.columns right.columns
        rows := left.rows.flatMap fun l => right.rows.map fun r => combine sides l r }

/-- The join of two tables, or every pairing of their rows if they share no column. -/
def both (left right : Table) : Except Fault Table :=
  if left.columns.any right.columns.contains then join left right else cross left right

/-! ## 3. Lists of tables -/

/-- A table is added to a list.  If the list has a table with the same columns, the new rows are
put behind its rows and each row is kept once; otherwise the table becomes the last one. -/
def addTo (t : Table) : List Table → List Table
  | [] => [t]
  | first :: rest =>
    if first.columns = t.columns then
      { first with rows := (first.rows ++ t.rows).eraseDups } :: rest
    else first :: addTo t rest

/-- All tables of both lists. -/
def union (tables new : List Table) : List Table := new.foldl (fun all t => t.addTo all) tables

/-- The tables added to a list one by one, each without repeated rows. -/
def joinInto (all : List Table) : List (Table × Table) → Except Fault (List Table)
  | [] => .ok all
  | (left, right) :: rest =>
    (both left right).bind fun t => joinInto (union all [t.dedup]) rest

/-- Every table of one list with every table of another. -/
def joinAll (left right : List Table) : Except Fault (List Table) :=
  joinInto [] (left.flatMap fun l => right.map fun r => (l, r))

end Table

end TaggedText.Query
