/-
# Shortest and longest spans

The spans that contain no other span of a list, and those that no other span of it contains.  Both
selections sort the list, keep one span per start, and then compare each span with the later ones
only.  Offsets are left out of the comparison.
-/
import TaggedText.Span

namespace TaggedText.Spans

/-- The spans without those that start where the last kept one does. -/
def distinctStartsAfter (last : Option Nat) : List Span → List Span
  | [] => []
  | a :: rest =>
    if last = some a.start then distinctStartsAfter last rest
    else a :: distinctStartsAfter (some a.start) rest

/-- The first span of every run with one start. -/
def distinctStarts (spans : List Span) : List Span := distinctStartsAfter none spans

/-- The spans to which no later one is related. -/
def withoutLater (related : Span → Span → Bool) : List Span → List Span
  | [] => []
  | a :: rest =>
    if rest.any (related a) then withoutLater related rest
    else a :: withoutLater related rest

/-- The spans that contain no other span. -/
def shortest (spans : List Span) : List Span :=
  withoutLater (fun a later => later.within a) (distinctStarts (Span.sort spans))

/-- The spans that no other span contains. -/
def longest (spans : List Span) : List Span :=
  Span.sort (withoutLater Span.within
    (distinctStarts (spans.mergeSort fun a b => Span.le b a)))

end TaggedText.Spans
