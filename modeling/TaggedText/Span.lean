/-
# Spans

A span is a closed-open interval `[start, stop)` of positions, counted from an offset.  Spans cut
out of a whole text have offset 0; spans that were placed relative to a line, say, carry the
position of that line as their offset.

The relations of interval algebra compare the two bounds and leave the offset out.  They are
stated as eight named relations and three derived ones, in the direction "the first span … the
second".  Equal borders matter: `overlaps`, `starts`, `during` and `finishes` are strict on at least
one side, and `meets` asks for a common border only.
-/

namespace TaggedText

/-- A closed-open interval of positions, counted from `offset`. -/
structure Span where
  start : Nat
  stop : Nat
  offset : Nat
  start_le_stop : start ≤ stop := by omega
deriving DecidableEq

/-- One span per column. -/
abbrev Row := List Span

namespace Span

/-! ## 1. Making and measuring -/

/-- The span with these bounds, `none` when they are in the wrong order. -/
def ofBounds? (start stop offset : Nat) : Option Span :=
  if h : start ≤ stop then some ⟨start, stop, offset, h⟩ else none

/-- The number of positions in the span. -/
def length (a : Span) : Nat := a.stop - a.start

/-- The span holds no position. -/
def isEmpty (a : Span) : Bool := a.start == a.stop

/-- The bounds counted from the beginning of the text. -/
def bounds (a : Span) : Nat × Nat := (a.offset + a.start, a.offset + a.stop)

/-- The same span with its bounds counted from the beginning of the text. -/
def absolute (a : Span) : Span where
  start := a.offset + a.start
  stop := a.offset + a.stop
  offset := 0
  start_le_stop := by have := a.start_le_stop; omega

/-- Offset and bounds, as listings write them. -/
def text (a : Span) : String :=
  a.offset.repr ++ "+[" ++ a.start.repr ++ ", " ++ a.stop.repr ++ ")"

/-! ## 2. Order

Spans are ordered by start, then stop, then offset.  Every sorted list of spans is sorted this way. -/

/-- The order of spans. -/
protected def compare (a b : Span) : Ordering :=
  (Ord.compare a.start b.start).then
    ((Ord.compare a.stop b.stop).then (Ord.compare a.offset b.offset))

instance : Ord Span := ⟨Span.compare⟩

/-- The first span is not after the second. -/
def le (a b : Span) : Bool := (Span.compare a b).isLE

/-- The spans in increasing order. -/
def sort (spans : List Span) : List Span := spans.mergeSort le

/-! ## 3. Interval relations -/

/-- The first ends before the second starts, with room between. -/
def before (a b : Span) : Bool := a.stop < b.start

/-- The first ends where the second starts. -/
def meets (a b : Span) : Bool := a.stop == b.start

/-- The first starts first, and ends inside the second. -/
def overlaps (a b : Span) : Bool := a.start < b.start && b.start < a.stop && a.stop < b.stop

/-- The first is a proper beginning of the second. -/
def starts (a b : Span) : Bool := a.start == b.start && a.stop < b.stop

/-- The first lies inside the second, off both borders. -/
def during (a b : Span) : Bool := b.start < a.start && a.stop < b.stop

/-- The first is a proper end of the second. -/
def finishes (a b : Span) : Bool := b.start < a.start && a.stop == b.stop

/-- Both have the same bounds. -/
def equals (a b : Span) : Bool := a.start == b.start && a.stop == b.stop

/-- The first is part of the second, or all of it. -/
def within (a b : Span) : Bool := a.starts b || a.during b || a.finishes b || a.equals b

/-- The first is a beginning of the second, or all of it. -/
def begins (a b : Span) : Bool := a.starts b || a.equals b

/-- One overlaps or contains the other. -/
def intersects (a b : Span) : Bool :=
  a.overlaps b || a.starts b || a.during b || a.finishes b ||
    b.overlaps a || b.starts a || b.during a || b.finishes a || a.equals b

/-- Neither overlaps or contains the other. -/
def disjoint (a b : Span) : Bool := !a.intersects b

/-- The number of positions that both hold. -/
def intersectionLength (a b : Span) : Nat :=
  if a.start < b.start ∧ b.start < a.stop then min a.stop b.stop - b.start
  else if b.start < a.start ∧ a.start < b.stop then min a.stop b.stop - a.start
  else if a.start = b.start then min (b.stop - b.start) (a.stop - a.start)
  else 0

/-! ## 4. The hull -/

/-- The smallest span that covers both, counted from the offset of the first. -/
def hull (a b : Span) : Span where
  start := min a.start b.start
  stop := max a.stop b.stop
  offset := a.offset
  start_le_stop := by have := a.start_le_stop; omega

end Span

namespace Row

/-- Rows are ordered as words are, by their spans from left to right. -/
def le (a b : Row) : Bool := (Ord.compare a b).isLE

/-- The rows in increasing order. -/
def sort (rows : List Row) : List Row := rows.mergeSort le

end Row

end TaggedText
