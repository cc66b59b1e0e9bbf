/-
# Searching sorted spans

Binary search in a list sorted by the order of spans, and the removal of spans that occur in
another list.
-/
import TaggedText.Span

namespace TaggedText.Spans

/-- Where a span is, or where it would have to be put. -/
inductive Place where
  | present (index : Nat)
  | absent (index : Nat)
deriving DecidableEq

/-- The span occurs. -/
def Place.isPresent : Place → Bool
  | .present _ => true
  | .absent _ => false

/-- Search between two bounds: everything before `low` is less than the target and everything from
`high` on is greater.  The middle of the range is looked at, and one of the halves is searched. -/
def searchBetween (spans : List Span) (target : Span) (low high : Nat) : Place :=
  if low < high then
    let middle := low + (high - low) / 2
    match spans[middle]? with
    | none => .absent low
    | some a =>
      match Span.compare target a with
      | .eq => .present middle
      | .lt => searchBetween spans target low middle
      | .gt => searchBetween spans target (middle + 1) high
  else .absent low
termination_by high - low

/-- The place of a span in a sorted list. -/
def search (spans : List Span) (target : Span) : Place :=
  searchBetween spans target 0 spans.length

/-- The spans that do not occur among those to discard. -/
def minus (spans discard : List Span) : List Span :=
  let sorted := Span.sort discard
  spans.filter fun a => !(search sorted a).isPresent

end TaggedText.Spans
