/-
# Columns of a printed table

The fields of a text are counted from the starts of their lines and put into clusters, so that a
column is a set of fields that overlap once all lines are moved to the left margin.  A column is
found by a text that occurs in one of its fields.
-/
import TaggedText.Document
import TaggedText.Pattern.Standard
import TaggedText.Spans.Cluster

namespace TaggedText.Document

variable [Pattern.Engine]

/-- The columns of the fields of a text, each sorted by the position of its fields. -/
def columns (text : List Char) : Except Fault (List (List Span)) := do
  let d : Document := { text := text }
  let (d, _) ← d.tagPattern "field" Pattern.Standard.field 2 true
  let (d, _) ← d.tagPattern "line" Pattern.Standard.line 1 false
  let fields ← d.project "field" "line"
  return (Spans.clusters fields).map fun column => Span.sort (column.map Span.absolute)

/-- The fields of the one column in which a text occurs. -/
def columnContaining (d : Document) (needle : String) : Except Fault (List Span) := do
  let columns ← columns d.text
  let occurrences := d.spansOf false (.literal needle)
  let found := columns.filter fun column =>
    occurrences.any fun a => column.any fun field => a.within field
  match found with
  | [column] => return column
  | _ => throw (.ambiguousColumn needle found.length)

end TaggedText.Document
