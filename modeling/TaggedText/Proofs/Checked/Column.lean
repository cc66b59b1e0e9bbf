/-
# Checked columns

Taking the fields of a text apart into columns, with every check made.  The fields are spans of
matches and are counted from the starts of their lines, so that they still fit (`fits_project`), and
the members of a cluster are fields (`Spans.mem_of_mem_clusters`); hence **all of them can be counted
from the beginning of the text again**.
-/
import TaggedText.Column
import TaggedText.Proofs.Checked.Document
import TaggedText.Proofs.Spans.Clustering

namespace TaggedText.Checked

/-! ## 1. Fields -/

/-- Counted from the start of another span, a span that fits still fits. -/
theorem fits_project {d : Document} (h : d.Fits) {tag reference : String} {spans : List Span}
    (hspans : d.project tag reference = .ok spans) {a : Span} (ha : a ∈ spans) : a.Fits := by
  unfold Document.project at hspans
  cases hdefined : d.defined tag with
  | error e =>
    rw [hdefined] at hspans
    cases hspans
  | ok held =>
    cases hreferences : d.defined reference with
    | error e =>
      rw [hdefined, hreferences] at hspans
      cases hspans
    | ok references =>
      rw [hdefined, hreferences] at hspans
      cases hspans
      obtain ⟨b, hb, ha⟩ := List.mem_filterMap.mp ((List.mergeSort_perm _ _).mem_iff.mp ha)
      obtain ⟨r, hfind, ha⟩ := Option.bind_eq_some_iff.mp ha
      obtain ⟨relative, -, hplain, hstop⟩ := relativeTo_eq (List.find?_some hfind)
      cases ha.symm.trans hplain
      have hheld : b ∈ d.held tag := by
        unfold Document.defined at hdefined
        unfold Document.held
        split at hdefined
        · next hget =>
          cases hdefined
          rw [hget]
          exact hb
        · cases hdefined
      have hfits := h tag b hheld
      unfold Span.Fits at hfits ⊢
      omega

/-! ## 2. Columns -/

/-- The columns of the fields of a text. -/
def columns [Pattern.Engine] (text : List Char) : Checked (Except Fault (List (List Span))) := do
  let (withFields, fields) ← tagMatches { text := text } "field" Pattern.Standard.field 2 true
  match fields with
  | .error e => return .error e
  | .ok _ =>
    let (withLines, lines) ← tagMatches withFields "line" Pattern.Standard.line 1 false
    match lines with
    | .error e => return .error e
    | .ok _ =>
      match ← project withLines "field" "line" with
      | .error e => return .error e
      | .ok relative =>
        let found ← clusters relative
        let absolutes ← found.mapM fun column => column.mapM absolute
        return .ok (absolutes.map Span.sort)

theorem columns_eq [Pattern.Engine] [Pattern.LawfulEngine] {text : List Char}
    (hwidth : Text.width text < wordBound) : columns text = .ok (Document.columns text) := by
  have hsorted : Document.Sorted { text := text } := fun _ => List.Pairwise.nil
  have hnone : Document.Fits { text := text } := fun _ a ha => absurd ha List.not_mem_nil
  have hkeeps := Document.keeps_tagMatches hsorted "field" Pattern.Standard.field 2 true
  have hfields := hnone.tagMatches hwidth "field" Pattern.Standard.field 2 true
  unfold columns Document.columns
  simp only [tagMatches_eq, ok_bind, Document.tagPattern]
  generalize Document.tagMatches { text := text } "field" Pattern.Standard.field 2 true = first
    at hkeeps hfields ⊢
  obtain ⟨withFields, fields⟩ := first
  have hlines := hfields.tagMatches (hkeeps.text ▸ hwidth) "line" Pattern.Standard.line 1 false
  cases fields with
  | error e => rfl
  | ok n =>
    simp only [Except.map, ok_bind]
    generalize withFields.tagMatches "line" Pattern.Standard.line 1 false = second at hlines ⊢
    obtain ⟨withLines, lines⟩ := second
    cases lines with
    | error e => rfl
    | ok n =>
      simp only [project_eq, ok_bind]
      cases hproject : withLines.project "field" "line" with
      | error e => rfl
      | ok relative =>
        have habsolute : (Spans.clusters relative).mapM (fun column => column.mapM absolute) =
            Except.ok ((Spans.clusters relative).map fun column => column.map Span.absolute) :=
          mapM_eq fun column hcolumn => mapM_eq fun a ha =>
            absolute_eq (fits_project hlines hproject (Spans.mem_of_mem_clusters hcolumn ha))
        simp only [clusters_eq, ok_bind, habsolute, List.map_map]
        rfl

/-- The fields of the one column in which a text occurs. -/
def columnContaining [Pattern.Engine] (d : Document) (needle : String) :
    Checked (Except Fault (List Span)) := do
  match ← columns d.text with
  | .error e => return .error e
  | .ok columns =>
    let occurrences ← spansOf d false (.literal needle)
    let found := columns.filter fun column =>
      occurrences.any fun a => column.any fun field => a.within field
    match found with
    | [column] => return .ok column
    | _ => return .error (.ambiguousColumn needle found.length)

theorem columnContaining_eq [Pattern.Engine] [Pattern.LawfulEngine] {d : Document}
    (hwidth : Text.width d.text < wordBound) (needle : String) :
    columnContaining d needle = .ok (d.columnContaining needle) := by
  unfold columnContaining Document.columnContaining
  rw [columns_eq hwidth, ok_bind]
  cases Document.columns d.text with
  | error e => rfl
  | ok columns =>
    simp only [spansOf_eq, ok_bind]
    generalize List.filter _ columns = found
    rcases found with _ | ⟨column, _ | ⟨other, others⟩⟩ <;> rfl

end TaggedText.Checked
