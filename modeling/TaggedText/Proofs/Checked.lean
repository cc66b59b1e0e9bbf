/-
# No check fails

Spans are made at many places, and at none of them is there a look at whether they start before they
stop; that is left to what has been found out before: that one span lies in another, that two
overlap, that a list is sorted, or that a match goes forward.  The checked operations have that look,
at every span that is made and at every difference and sum.  `no_check_fails` puts together that
**none of them ever stops at a check**, on any spans and on any document that calls lead to, and that
they give what the operations give that do without.  So whatever is given back has been made with its
start before its stop.

A query makes no spans; those of its answer are spans of the references that it is on.  Of the engine
that finds matches it is asked only that these lie in the text, with their bounds in order
(`Pattern.LawfulEngine`).
-/
import TaggedText.Proofs.Checked.Column
import TaggedText.Proofs.Query.Origin

namespace TaggedText.Checked

/-- **No check fails**, neither of a span that is made nor of a difference or a sum, and the checked
operations give what the others give.  This is so for all spans, rows and lists, as far as spans that
are to be counted from the beginning of the text fit into words, and for the document after any
calls with spans that fit; and the answer of a query is made of spans of the document. -/
theorem no_check_fails [Pattern.Engine] [Pattern.LawfulEngine] (text : String) (lower : Bool)
    (calls : List Document.Call)
    (hwidth : Text.width (Document.ofString text lower).text < wordBound)
    (hcalls : ∀ c ∈ calls, c.Fits) :
    let d := (Document.ofString text lower).afterAll calls
    -- spans
    ((∀ a, length a = .ok a.length) ∧
      (∀ a b, intersectionLength a b = .ok (a.intersectionLength b)) ∧
      (∀ a b, merge a b = .ok (a.merge b)) ∧
      ∀ a, a.Fits → absolute a = .ok a.absolute) ∧
    -- rows; the closed, open and half-open spans of a row are cases of the first
    ((∀ operation left right row,
        spanning operation left right row = .ok (Row.spanning operation left right row)) ∧
      (∀ row, inBetween row = .ok (Row.inBetween row)) ∧
      (∀ gap row, seqBeforeWithin gap row = .ok (Row.seqBeforeWithin gap row)) ∧
      ∀ comparison n row, distanceHolds comparison n row =
        .ok (Query.Predicate.distanceHolds comparison n row)) ∧
    -- lists
    ((∀ contiguous spans, mergeAll contiguous spans = .ok (Spans.merge contiguous spans)) ∧
      (∀ spans discard, subtract spans discard = .ok (Spans.subtract spans discard)) ∧
      (∀ spans, clusters spans = .ok (Spans.clusters spans)) ∧
      ∀ spans, hull? spans = .ok (Spans.hull? spans)) ∧
    -- the document
    ((∀ tag pattern group overlapped, tagMatches d tag pattern group overlapped =
        .ok (d.tagMatches tag pattern group overlapped)) ∧
      (∀ overlapped r, spansOf d overlapped r = .ok (d.spansOf overlapped r)) ∧
      (∀ tag reference, project d tag reference = .ok (d.project tag reference)) ∧
      (∀ first second distance,
        between d first second distance = .ok (d.between first second distance)) ∧
      (∀ references bounds,
        untagged d references bounds = .ok (d.untagged references bounds)) ∧
      ∀ needle, columnContaining d needle = .ok (d.columnContaining needle)) ∧
    -- queries on it
    ∀ references q, Query.Posed d references q →
      ∀ (σ : Type) (judge : Query.Judge (StateM σ)) (s : σ) (rows : List Row),
        ((q.execute judge).run s).run.1.2.1 = .ok rows →
        ∀ row ∈ rows, ∀ a ∈ row, a.start ≤ a.stop ∧ ∃ r ∈ references, a ∈ d.spansOf false r := by
  intro d
  have hsorted : d.Sorted := Document.sorted_afterAll (Document.sorted_ofString text lower) calls
  obtain ⟨hfits, htext⟩ := Document.fits_afterAll (Document.fits_ofString text lower)
    (Document.sorted_ofString text lower) hwidth hcalls
  have hwidth : Text.width d.text < wordBound := htext ▸ hwidth
  refine ⟨⟨length_eq, intersectionLength_eq, merge_eq, fun a => absolute_eq⟩,
    ⟨spanning_eq, inBetween_eq, seqBeforeWithin_eq, distanceHolds_eq⟩,
    ⟨mergeAll_eq, subtract_eq, clusters_eq, hull?_eq⟩,
    ⟨tagMatches_eq d, spansOf_eq d, project_eq d, between_eq hsorted,
      fun references => untagged_eq fun r _ a ha => hfits.spansOf hwidth ha,
      columnContaining_eq hwidth⟩, ?_⟩
  intro references q hq σ judge s rows hrows row hrow a ha
  exact ⟨a.start_le_stop, hq.mem_reference judge s hrows hrow ha⟩

/-- Two tags over a text: one counted from itself, the gap between its spans, and what both leave
free. -/
theorem no_check_fails_two_tags :
    let d := (Document.ofString "A b a" true).afterAll
      [.spans "a" [⟨4, 5, 0, by decide⟩, ⟨0, 1, 0, by decide⟩], .span "b" ⟨1, 2, 1, by decide⟩]
    project d "a" "a" = .ok (.ok [⟨0, 1, 0, by decide⟩, ⟨0, 1, 4, by decide⟩]) ∧
      between d "a" "a" 3 = .ok [⟨1, 4, 0, by decide⟩] ∧
      untagged d [.tag "a", .tag "b"] none =
        .ok (.ok [⟨1, 2, 0, by decide⟩, ⟨3, 4, 0, by decide⟩]) := by
  intro d
  obtain ⟨-, -, -, ⟨-, -, hproject, hbetween, huntagged, -⟩, -⟩ :=
    no_check_fails "A b a" true
      [.spans "a" [⟨4, 5, 0, by decide⟩, ⟨0, 1, 0, by decide⟩], .span "b" ⟨1, 2, 1, by decide⟩]
      (by decide) (by simp [Document.Call.Fits, Span.Fits, wordBound])
  refine ⟨(hproject "a" "a").trans ?_, (hbetween "a" "a" 3).trans ?_,
    (huntagged [.tag "a", .tag "b"] none).trans ?_⟩
  · exact congrArg Except.ok (by cbv)
  · exact congrArg Except.ok (by cbv)
  · exact congrArg Except.ok (by cbv)

end TaggedText.Checked
