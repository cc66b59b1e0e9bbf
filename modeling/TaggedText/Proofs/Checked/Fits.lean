/-
# Spans that fit into words

A span fits if its bounds are words when they are counted from the beginning of the text.  The spans
of matches fit, because they lie in the text, whatever engine finds them
(`Pattern.Finder.Lawful.stop_le_width`).  Tagging keeps what a tag
holds and adds what it is given, so if all spans that are given fit, then **all spans that a document
holds fit after any calls**: `fits_afterAll`.
-/
import TaggedText.Proofs.Checked.Spans
import TaggedText.Proofs.Pattern.Lawful
import TaggedText.Proofs.Tagging

namespace TaggedText

open Checked (wordBound)

/-! ## 1. Matches -/

/-- **The spans of matches lie in the text.** -/
theorem Pattern.Finder.Lawful.stop_le_width {f : Finder} (h : f.Lawful) {group : Nat}
    {overlapped : Bool} {text : List Char} {a : Span} (ha : a ∈ f.spans group overlapped text) :
    a.offset + a.stop ≤ Text.width text := by
  obtain ⟨found, hfound, ha⟩ := List.mem_filterMap.mp ha
  obtain ⟨⟨start, stop⟩, hbounds, ha⟩ := Option.bind_eq_some_iff.mp ha
  obtain ⟨hle, hstop⟩ := h.bounded_of_mem_matches hfound group start stop hbounds
  simp only [Span.ofBounds?, dif_pos hle, Option.some.injEq] at ha
  subst ha
  simpa using hstop

namespace Document

variable {d : Document} {tag : String}

/-! ## 2. Documents -/

/-- The spans of all tags fit into words. -/
def Fits (d : Document) : Prop := ∀ tag, ∀ a ∈ d.held tag, a.Fits

theorem fits_ofString (text : String) (lower : Bool) : (ofString text lower).Fits := by
  intro tag a ha
  cases ha

theorem Fits.put (h : d.Fits) {spans : List Span} (hspans : ∀ a ∈ spans, a.Fits) :
    Fits { d with tags := d.tags.put tag spans } := by
  intro other a ha
  by_cases hother : other = tag
  · rw [hother, held_put] at ha
    exact hspans a ha
  · rw [held_congr (Tags.get?_put_of_ne hother spans d.tags)] at ha
    exact h other a ha

theorem Fits.tagMatches [Pattern.Engine] [Pattern.LawfulEngine] (h : d.Fits)
    (hwidth : Text.width d.text < wordBound) (tag pattern : String) (group : Nat) (overlapped : Bool) :
    (d.tagMatches tag pattern group overlapped).1.Fits := by
  unfold Document.tagMatches
  split
  · exact h
  · split
    · exact h
    · next f hcompile =>
      refine h.put fun a ha => ?_
      have hfound : a ∈ f.spans group overlapped d.text := (List.mergeSort_perm _ _).mem_iff.mp ha
      have hlawful : f.Lawful := Pattern.LawfulEngine.compile hcompile
      exact Nat.lt_of_le_of_lt (hlawful.stop_le_width hfound) hwidth

/-- Tagging spans that fit keeps all spans fitting. -/
theorem Fits.adds {t t' : Tagging} (h : t.document.Fits) {spans : List Span}
    (hadds : Tagging.Adds tag spans t t') (hkeeps : Keeps (· = tag) t.document t'.document)
    (hspans : ∀ a ∈ spans, a.Fits) : t'.document.Fits := by
  intro other a ha
  by_cases hother : other = tag
  · rw [hother, hadds.mem] at ha
    exact ha.elim (h tag a) (hspans a)
  · rw [held_congr (hkeeps.others other hother)] at ha
    exact h other a ha

theorem Fits.tagSpans (h : d.Fits) (hsorted : d.Sorted) {spans : List Span}
    (hspans : ∀ a ∈ spans, a.Fits) : (d.tagSpans tag spans).document.Fits := by
  obtain ⟨-, hadds, hkeeps⟩ := tagSpans_spec hsorted tag spans
  exact Fits.adds (t := ⟨d, 0, []⟩) h hadds hkeeps hspans

theorem Fits.tagLists (h : d.Fits) (hsorted : d.Sorted) (stem : String) {lists : List (List Span)}
    (hlists : ∀ spans ∈ lists, ∀ a ∈ spans, a.Fits) : (d.tagLists stem lists).document.Fits := by
  have hitems : ∀ item ∈ lists.zipIdx, ∀ a ∈ item.1, a.Fits :=
    fun item hitem => hlists item.1 (List.fst_mem_of_mem_zipIdx hitem)
  have hstart : (Tagging.mk d 0 []).document.Fits ∧ (Tagging.mk d 0 []).document.Sorted :=
    ⟨h, hsorted⟩
  unfold Document.tagLists
  generalize Tagging.mk d 0 [] = t at hstart ⊢
  generalize lists.zipIdx = items at hitems ⊢
  induction items generalizing t with
  | nil => exact hstart.1
  | cons item items ih =>
    refine ih _ ⟨?_, ?_⟩ fun item hitem => hitems item (List.mem_cons_of_mem _ hitem)
    · exact hstart.1.tagSpans hstart.2 (hitems item List.mem_cons_self)
    · exact (tagSpans_spec hstart.2 _ item.1).2.2.sorted

theorem Fits.deleteTag (h : d.Fits) (hsorted : d.Sorted) (tag : String) :
    (d.deleteTag tag).1.Fits := by
  intro other a ha
  by_cases hother : other = tag
  · subst hother
    unfold Document.deleteTag at ha
    split at ha
    · rw [held, Tags.get?_erase] at ha
      cases ha
    · exact h other a ha
  · rw [held_congr ((keeps_deleteTag hsorted tag).others other hother)] at ha
    exact h other a ha

/-- The spans that a call brings fit into words. -/
def Call.Fits : Call → Prop
  | .pattern _ _ _ _ | .delete _ => True
  | .span _ a => a.Fits
  | .spans _ new => ∀ a ∈ new, a.Fits
  | .lists _ new => ∀ spans ∈ new, ∀ a ∈ spans, a.Fits

/-- **After a call all spans fit**, if those that it brings do and the text is no wider than a word
can tell. -/
theorem Fits.after [Pattern.Engine] [Pattern.LawfulEngine] (h : d.Fits) (hsorted : d.Sorted)
    (hwidth : Text.width d.text < wordBound) {c : Call} (hc : c.Fits) : (c.after d).Fits := by
  cases c with
  | pattern tag source group overlapped => exact h.tagMatches hwidth tag source group overlapped
  | span tag a =>
    refine Fits.adds (t := ⟨d, 0, []⟩) h (Tagging.adds_add hsorted tag a)
      (Tagging.keeps_add hsorted tag a) fun b hb => ?_
    rw [List.mem_singleton.mp hb]
    exact hc
  | spans tag new => exact h.tagSpans hsorted hc
  | lists stem new => exact h.tagLists hsorted stem hc
  | delete tag => exact h.deleteTag hsorted tag

/-- **After any calls all spans fit**, and the text is as it was. -/
theorem fits_afterAll [Pattern.Engine] [Pattern.LawfulEngine] (h : d.Fits) (hsorted : d.Sorted)
    (hwidth : Text.width d.text < wordBound) {calls : List Call} (hcalls : ∀ c ∈ calls, c.Fits) :
    (d.afterAll calls).Fits ∧ (d.afterAll calls).text = d.text := by
  induction calls generalizing d with
  | nil => exact ⟨h, rfl⟩
  | cons c calls ih =>
    obtain ⟨htext, -, hkept⟩ := c.keeps hsorted
    obtain ⟨hfits, hsame⟩ := ih (h.after hsorted hwidth (hcalls c List.mem_cons_self)) hkept
      (htext ▸ hwidth) fun c hc => hcalls c (List.mem_cons_of_mem _ hc)
    exact ⟨hfits, hsame.trans htext⟩

/-- The spans of a reference fit if those of the tags do and the text is no wider than a word can
tell. -/
theorem Fits.spansOf [Pattern.Engine] [Pattern.LawfulEngine] (h : d.Fits)
    (hwidth : Text.width d.text < wordBound) {overlapped : Bool} {r : Reference} {a : Span}
    (ha : a ∈ d.spansOf overlapped r) : a.Fits := by
  cases r with
  | tag name => exact h name a ha
  | literal text =>
    unfold Document.spansOf at ha
    cases hliteral : Pattern.Engine.literal? text.toList with
    | none =>
      simp only [hliteral, List.not_mem_nil] at ha
    | some f =>
      simp only [hliteral] at ha
      have hlawful : f.Lawful := Pattern.LawfulEngine.literal hliteral
      exact Nat.lt_of_le_of_lt (hlawful.stop_le_width ha) hwidth

end Document

end TaggedText
