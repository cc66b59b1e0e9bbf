/-
# Merging spans

Two spans merge when they intersect or meet and are counted from one offset.  A list is merged by
sorting it and going through it once with a current span: what merges with the current span widens
it, and anything else ends it and becomes the next current span.
-/
import TaggedText.Relation

namespace TaggedText

/-- The hull of two spans with no room between them and one offset. -/
def Span.merge (a b : Span) : Except Fault Span :=
  if a.stop < b.start ∨ b.stop < a.start then .error (.apart a b)
  else if a.offset ≠ b.offset then .error (.offsetsDiffer .merge)
  else .ok (a.hull b)

namespace Spans

/-- The next span is merged into the current one.  Spans that only meet are merged when `contiguous`
spans are, whatever their offsets, so that merging them may fail. -/
def joins (contiguous : Bool) (current next : Span) : Bool :=
  (current.intersects next && current.offset == next.offset) ||
    (contiguous && current.meets next)

/-- Going through spans with a current one. -/
def sweep (contiguous : Bool) (current : Span) : List Span → Except Fault (List Span)
  | [] => .ok [current]
  | next :: rest =>
    if joins contiguous current next then
      (current.merge next).bind fun merged => sweep contiguous merged rest
    else (sweep contiguous next rest).map (current :: ·)

/-- The spans with those merged that intersect, and, if asked for, also those that meet. -/
def merge (contiguous : Bool) (spans : List Span) : Except Fault (List Span) :=
  match Span.sort spans with
  | [] => .ok []
  | first :: rest => sweep contiguous first rest

end Spans

end TaggedText
