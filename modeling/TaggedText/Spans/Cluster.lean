/-
# Clusters

Spans that follow each other in a list are in one cluster as long as each intersects the reach of
the cluster so far, the hull of its members.  Offsets are left out.
-/
import TaggedText.Span

namespace TaggedText.Spans

/-- Going through spans with the reach of the current cluster and its members, the last one first. -/
def clustersFrom (reach : Span) (members : List Span) : List Span → List (List Span)
  | [] => [members.reverse]
  | a :: rest =>
    if reach.intersects a then clustersFrom (reach.hull a) (a :: members) rest
    else members.reverse :: clustersFrom a [a] rest

/-- The spans in clusters. -/
def clusters : List Span → List (List Span)
  | [] => []
  | first :: rest => clustersFrom first [first] rest

/-- The hull of all spans, counted from the beginning of the text, `none` without spans. -/
def hull? : List Span → Option Span
  | [] => none
  | first :: rest => some { rest.foldl Span.hull first with offset := 0 }

end TaggedText.Spans
