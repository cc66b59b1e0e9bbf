/-
# Relations over rows

A pairwise relation takes a row of exactly two spans; a sequence relation asks something of every
two neighbours in a row of any length.  The span combinators make new spans out of the ends of the
spans of a row, which must all be counted from one offset.  The named relations are those that a
query may use without further ado.
-/
import TaggedText.Fault

namespace TaggedText

/-! ## 1. Rows of two -/

namespace Row

/-- The two spans of a row, which has to have exactly two. -/
def pair (relation : String) : Row → Except Fault (Span × Span)
  | [a, b] => .ok (a, b)
  | row => .error (.arity relation .two row.length)

/-- The first span of a pair is a beginning of the second, or all of it. -/
def begins (row : Row) : Except Fault Bool :=
  (pair "begins" row).map fun (a, b) => a.begins b

/-- The number of positions that the spans of a pair share. -/
def intersectionLength (row : Row) : Except Fault Nat :=
  (pair "intersect_len" row).map fun (a, b) => a.intersectionLength b

/-! ## 2. Sequences -/

/-- Every two neighbours in the row are related. -/
def chained (related : Span → Span → Bool) : Row → Bool
  | a :: b :: rest => related a b && chained related (b :: rest)
  | _ => true

/-- Each span ends where the next one starts. -/
def seqMeets (row : Row) : Bool := chained Span.meets row

/-- Each span ends before the next one starts. -/
def seqBefore (row : Row) : Bool := chained Span.before row

/-- Each span ends before the next one starts, at most `gap` positions away. -/
def seqBeforeWithin (gap : Nat) (row : Row) : Bool :=
  chained (fun a b => a.before b && b.start - a.stop ≤ gap) row

/-- Each span ends at or before the start of the next one. -/
def seqBeforeMeets (row : Row) : Bool := chained (fun a b => a.before b || a.meets b) row

/-! ## 3. Spans made out of a row -/

/-- The offset that all spans of the row are counted from; 0 for a row without spans. -/
def commonOffset (operation : Operation) (row : Row) : Except Fault Nat :=
  let offset := (row.head?.map Span.offset).getD 0
  if row.all fun a => a.offset == offset then .ok offset
  else .error (.offsetsDiffer operation)

/-- The first and the last span of a row of at least two. -/
def ends (operation : Operation) : Row → Except Fault (Span × Span)
  | a :: b :: rest => .ok (a, (b :: rest).getLast (List.cons_ne_nil b rest))
  | row => .error (.arity operation.name .twoOrMore row.length)

end Row

/-- The span with these bounds, which have to be in order. -/
def Span.make (start stop offset : Nat) : Except Fault Span :=
  match Span.ofBounds? start stop offset with
  | some a => .ok a
  | none => .error (.malformed start stop offset)

namespace Row

/-- The span from a border of the first span to a border of the last.  The number of spans is
looked at first, then their offsets, then the order of the borders. -/
def spanning (operation : Operation) (left right : Span → Nat) (row : Row) :
    Except Fault Span := do
  let (first, last) ← ends operation row
  let offset ← commonOffset operation row
  Span.make (left first) (right last) offset

/-- From the start of the first span to the stop of the last. -/
def closedSpan : Row → Except Fault Span := spanning .closedSpan Span.start Span.stop

/-- From the start of the first span to the start of the last. -/
def openRightSpan : Row → Except Fault Span := spanning .openRightSpan Span.start Span.start

/-- From the stop of the first span to the stop of the last. -/
def openLeftSpan : Row → Except Fault Span := spanning .openLeftSpan Span.stop Span.stop

/-- From the stop of the first span to the start of the last. -/
def openSpan : Row → Except Fault Span := spanning .openSpan Span.stop Span.start

/-- The gaps between neighbours, counted from an offset. -/
def gaps (offset : Nat) : Row → Except Fault (List Span)
  | a :: b :: rest =>
    (Span.make a.stop b.start offset).bind fun gap =>
      (gaps offset (b :: rest)).map (gap :: ·)
  | _ => .ok []

/-- The gaps between neighbours of a row with a common offset. -/
def inBetween (row : Row) : Except Fault (List Span) :=
  (commonOffset .inBetween row).bind fun offset => gaps offset row

end Row

/-! ## 4. Named relations -/

/-- The relations that a query knows by name. -/
inductive Relation where
  | before
  | meets
  | overlaps
  | starts
  | during
  | finishes
  | equal
  | subinterval
  | intersects
  | disjoint
  | seqBefore
  | seqMeets
  | seqBeforeMeets
deriving DecidableEq

namespace Relation

/-- All named relations. -/
def all : List Relation :=
  [before, meets, overlaps, starts, during, finishes, equal, subinterval, intersects, disjoint,
    seqBefore, seqMeets, seqBeforeMeets]

/-- The name of a relation. -/
def name : Relation → String
  | before => "before"
  | meets => "meets"
  | overlaps => "overlaps"
  | starts => "starts"
  | during => "during"
  | finishes => "finishes"
  | equal => "equal"
  | subinterval => "subinterval"
  | intersects => "intersects"
  | disjoint => "disjoint"
  | seqBefore => "seq_before"
  | seqMeets => "seq_meets"
  | seqBeforeMeets => "seq_before_meets"

/-- The relation of a name. -/
def ofName? (name : String) : Option Relation := all.find? fun r => r.name == name

/-- Reading a name undoes writing it. -/
theorem ofName?_name (r : Relation) : ofName? r.name = some r := by
  cases r <;> decide

/-- What a relation asks of a row: a test of two spans, or a test of a sequence. -/
inductive Kind where
  | pairwise (related : Span → Span → Bool)
  | sequential (related : Row → Bool)

/-- What the relation asks of a row. -/
def kind : Relation → Kind
  | before => .pairwise Span.before
  | meets => .pairwise Span.meets
  | overlaps => .pairwise Span.overlaps
  | starts => .pairwise Span.starts
  | during => .pairwise Span.during
  | finishes => .pairwise Span.finishes
  | equal => .pairwise Span.equals
  | subinterval => .pairwise Span.within
  | intersects => .pairwise Span.intersects
  | disjoint => .pairwise Span.disjoint
  | seqBefore => .sequential Row.seqBefore
  | seqMeets => .sequential Row.seqMeets
  | seqBeforeMeets => .sequential Row.seqBeforeMeets

/-- The number of spans a relation takes, `none` for any number but zero. -/
def arity? (r : Relation) : Option Nat :=
  match r.kind with
  | .pairwise _ => some 2
  | .sequential _ => none

/-- A relation may be applied to this number of spans. -/
def checkArity (r : Relation) (got : Nat) : Except Fault Unit :=
  match r.kind with
  | .pairwise _ => if got = 2 then .ok () else .error (.arity r.name .two got)
  | .sequential _ => if got = 0 then .error (.arity r.name .oneOrMore got) else .ok ()

/-- The row is related; **no row but a pair is related pairwise.** -/
def holds (r : Relation) (row : Row) : Bool :=
  match r.kind, row with
  | .pairwise related, [a, b] => related a b
  | .pairwise _, _ => false
  | .sequential related, row => related row

/-- The row is related, or is refused because of its length. -/
def judge (r : Relation) (row : Row) : Except Fault Bool :=
  match r.kind with
  | .pairwise related => (Row.pair r.name row).map fun (a, b) => related a b
  | .sequential related => .ok (related row)

end Relation

end TaggedText
