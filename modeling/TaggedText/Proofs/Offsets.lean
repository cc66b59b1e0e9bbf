/-
# Offsets of tags that are related

A span denotes the part of the text between its bounds counted from the beginning of the text,
`Span.bounds`.  Relating two tags looks at the starts and stops of their spans alone and gives the
result an offset of its own: the start of the reference when spans are counted from a reference, and
0 for a gap between spans.  So what comes out denotes the starts and stops of what went in, with the
offsets left out.

* `projecting_drops_the_offset`: a projection has one span for each span that lies in a reference,
  and that **denotes the same part of the text exactly if the span has offset 0**, whatever the
  offset of the reference;
* `gaps_lie_between_spans_at_offset_zero`: a gap goes from the stop of a span to the start of
  another, and **each end of it is where that span ends or starts in the text exactly if that span
  has offset 0**.

What a projection gives has offsets, so projecting it again, or looking for gaps between what two
projections gave, leads to other parts of the text.
-/
import TaggedText.Proofs.Gaps
import TaggedText.Proofs.Spans.Covering
import Mathlib

namespace TaggedText

/-! ## 1. Spans counted from another one -/

namespace Span

variable {a r : Span}

/-- A span denotes its own start and stop exactly if it is counted from the beginning of the
text. -/
theorem bounds_eq_iff (a : Span) : a.bounds = (a.start, a.stop) ↔ a.offset = 0 := by
  simp only [bounds, Prod.mk.injEq]
  omega

end Span

namespace Document

variable {a r : Span}

/-- **A span can be counted from the start of one that it lies in**, and its start and stop are then
what it denotes. -/
theorem exists_relativeTo (h : a.within r = true) :
    ∃ b, relativeTo a r = some b ∧ b.offset = r.start ∧ b.bounds = (a.start, a.stop) := by
  obtain ⟨hstart, hstop⟩ := Span.within_iff.mp h
  have ha := a.start_le_stop
  have hle : a.start - r.start ≤ a.stop - r.start := by omega
  refine ⟨⟨a.start - r.start, a.stop - r.start, r.start, hle⟩, ?_, rfl, ?_⟩
  · rw [relativeTo, Span.ofBounds?, dif_pos hle]
  · simp only [Span.bounds, Prod.mk.injEq]
    omega

/-- The span counted from the first reference that it lies in. -/
def relativeToFirst (references : List Span) (a : Span) : Option Span :=
  (references.find? a.within).bind (relativeTo a)

/-- A span is made from another one: it is counted from a reference that the other one lies in, and
denotes the start and the stop of the other one. -/
structure MadeFrom (references : List Span) (a b : Span) : Prop where
  reference : ∃ r ∈ references, a.within r = true ∧ b.offset = r.start
  bounds : b.bounds = (a.start, a.stop)

theorem madeFrom_of_relativeToFirst {references : List Span} {b : Span}
    (h : relativeToFirst references a = some b) : MadeFrom references a b := by
  obtain ⟨r, hfind, hb⟩ := Option.bind_eq_some_iff.mp h
  have hwithin : a.within r = true := List.find?_some hfind
  obtain ⟨b', hb', hoffset, hbounds⟩ := exists_relativeTo hwithin
  cases hb.symm.trans hb'
  exact ⟨⟨r, List.mem_of_find?_eq_some hfind, hwithin, hoffset⟩, hbounds⟩

theorem exists_relativeToFirst {references : List Span}
    (h : references.any a.within = true) : ∃ b, relativeToFirst references a = some b := by
  obtain ⟨r, hr, hwithin⟩ := List.any_eq_true.mp h
  cases hfind : references.find? a.within with
  | none => exact absurd hwithin (List.find?_eq_none.mp hfind r hr)
  | some first =>
    obtain ⟨b, hb, -⟩ := exists_relativeTo (List.find?_some hfind)
    exact ⟨b, by rw [relativeToFirst, hfind, Option.bind_some, hb]⟩

/-- **There is one span for each that lies in a reference**, and none for the others. -/
theorem madeFrom_filterMap (references spans : List Span) :
    List.Forall₂ (MadeFrom references) (spans.filter fun a => references.any a.within)
      (spans.filterMap (relativeToFirst references)) := by
  induction spans with
  | nil => exact .nil
  | cons a spans ih =>
    by_cases h : references.any a.within = true
    · obtain ⟨b, hb⟩ := exists_relativeToFirst h
      simp only [List.filter_cons, h, if_true, List.filterMap_cons_some hb]
      exact .cons (madeFrom_of_relativeToFirst hb) ih
    · have hnone : relativeToFirst references a = none := by
        rw [relativeToFirst, List.find?_eq_none.mpr fun r hr hwithin =>
          h (List.any_eq_true.mpr ⟨r, hr, hwithin⟩), Option.bind_none]
      simp only [List.filter_cons, h, List.filterMap_cons_none hnone]
      exact ih

variable {d : Document} {tag reference : String} {spans references : List Span}

theorem project_of_defined (hspans : d.defined tag = .ok spans)
    (hreferences : d.defined reference = .ok references) :
    d.project tag reference = .ok (Span.sort (spans.filterMap (relativeToFirst references))) := by
  unfold project
  rw [hspans, hreferences]
  rfl

/-- **A projection denotes what its tag denotes without offsets.**  It is sorted, and has exactly
one span for each span of the tag that lies in a span of the reference.  That one denotes the start
and stop of the span it is made from; so it denotes the same part of the text if and only if that
span has offset 0.  The offset of the reference makes no difference. -/
theorem projecting_drops_the_offset (hspans : d.defined tag = .ok spans)
    (hreferences : d.defined reference = .ok references) :
    ∃ projected, d.project tag reference = .ok projected ∧ Span.Sorted projected ∧
      ∃ made, projected.Perm made ∧
        List.Forall₂ (fun a b => MadeFrom references a b ∧ (b.bounds = a.bounds ↔ a.offset = 0))
          (spans.filter fun a => references.any a.within) made := by
  refine ⟨_, project_of_defined hspans hreferences, Span.sorted_sort _, _,
    List.mergeSort_perm _ _, (madeFrom_filterMap references spans).imp ?_⟩
  intro a b h
  rw [h.bounds, ← a.bounds_eq_iff]
  exact ⟨h, eq_comm⟩

/-- A word of each of two lines, the second one counted from its line, and both counted from the
whole text. -/
theorem projecting_drops_the_offset_words :
    let words : List Span := [⟨0, 2, 0, by decide⟩, ⟨0, 2, 3, by decide⟩]
    let page : List Span := [⟨0, 5, 0, by decide⟩]
    let d : Document := ⟨"ab\ncd".toList, [("page", page), ("word", words)]⟩
    d.defined "word" = .ok words ∧ d.defined "page" = .ok page ∧
      ∃ projected, d.project "word" "page" = .ok projected ∧ Span.Sorted projected ∧
        ∃ made, projected.Perm made ∧
          List.Forall₂ (fun a b => MadeFrom page a b ∧ (b.bounds = a.bounds ↔ a.offset = 0))
            (words.filter fun a => page.any a.within) made := by
  intro words page d
  have hwords : d.defined "word" = .ok words := rfl
  have hpage : d.defined "page" = .ok page := rfl
  exact ⟨hwords, hpage, projecting_drops_the_offset hwords hpage⟩

/-- **What is counted from a line denotes something else once it is counted from the text.**  Of the
second of two lines the word is projected; the result denotes the word of the first. -/
theorem projecting_twice_moves_the_span :
    let word : Span := ⟨0, 2, 3, by decide⟩
    let d := (ofString "ab\ncd" true).afterAll
      [.span "word" word, .span "page" ⟨0, 5, 0, by decide⟩]
    d.defined "word" = .ok [word] ∧ d.defined "page" = .ok [⟨0, 5, 0, by decide⟩] ∧
      d.project "word" "page" = .ok [⟨0, 2, 0, by decide⟩] ∧
      ¬ ∃ projected, d.project "word" "page" = .ok projected ∧
        ∃ made, projected.Perm made ∧
          List.Forall₂ (fun (a b : Span) => b.bounds = a.bounds) [word] made := by
  intro word d
  have hproject : d.project "word" "page" = .ok [⟨0, 2, 0, by decide⟩] := by unfold d; cbv
  refine ⟨by unfold d; cbv, by unfold d; cbv, hproject, ?_⟩
  rintro ⟨projected, hprojected, made, hperm, hmade⟩
  cases hproject.symm.trans hprojected
  rw [← List.singleton_perm.mp hperm] at hmade
  cases hmade with
  | cons hbounds _ => exact absurd hbounds (by decide)

/-! ## 2. Gaps -/

/-- A span is a gap between two others, as their own bounds have it. -/
structure IsGap (a b g : Span) : Prop where
  start : g.start = a.stop
  stop : g.stop = b.start
  offset : g.offset = 0

/-- **Each end of a gap is where a span ends or starts in the text exactly if that span has
offset 0.** -/
theorem IsGap.bounds_iff {a b g : Span} (h : IsGap a b g) :
    (g.bounds.1 = a.bounds.2 ↔ a.offset = 0) ∧ (g.bounds.2 = b.bounds.1 ↔ b.offset = 0) := by
  simp only [Span.bounds, h.start, h.stop, h.offset]
  omega

theorem gapBetween?_eq_some {a b g : Span} {distance : Nat} :
    gapBetween? distance a b = some g ↔
      (1 ≤ g.length ∧ g.length ≤ distance) ∧ IsGap a b g := by
  unfold gapBetween?
  split
  · next hgap =>
    simp only [Option.some.injEq]
    constructor
    · rintro rfl
      simp only [Span.length]
      exact ⟨by omega, rfl, rfl, rfl⟩
    · rintro ⟨-, hstart, hstop, hoffset⟩
      cases g
      simp_all
  · next hnone =>
    refine iff_of_false (by simp) ?_
    rintro ⟨hlength, hstart, hstop, -⟩
    rw [Span.length, hstart, hstop] at hlength
    omega

/-- **The gaps of sorted tags**: all that are not empty and not too long, and no others. -/
theorem mem_between (hd : d.Sorted) {first second : String} {distance : Nat} {g : Span} :
    g ∈ d.between first second distance ↔
      (1 ≤ g.length ∧ g.length ≤ distance) ∧
        ∃ a ∈ d.held first, ∃ b ∈ d.held second, IsGap a b g := by
  rw [between_eq_gapsOfPairs hd]
  simp only [List.mem_flatMap, List.mem_filterMap, gapBetween?_eq_some]
  constructor
  · rintro ⟨a, ha, b, hb, hlength, hgap⟩
    exact ⟨hlength, a, ha, b, hb, hgap⟩
  · rintro ⟨hlength, a, ha, b, hb, hgap⟩
    exact ⟨a, ha, b, hb, hlength, hgap⟩

/-- **Gaps lie between the spans of two tags where these have offset 0.**  After any calls, the
gaps are all that are not empty and not longer than the distance, from the stop of a span of the
first tag to the start of one of the second; and such a gap is the part of the text from where the
first span ends to where the second one starts if and only if both have offset 0.  So for tags
whose spans have offset 0, every gap begins in the text where a span of the first tag ends, and
ends where one of the second starts. -/
theorem gaps_lie_between_spans_at_offset_zero [Pattern.Engine] (text : String) (lower : Bool)
    (calls : List Call) (first second : String) (distance : Nat) :
    let d := (ofString text lower).afterAll calls
    (∀ g, g ∈ d.between first second distance ↔
      (1 ≤ g.length ∧ g.length ≤ distance) ∧
        ∃ a ∈ d.held first, ∃ b ∈ d.held second, IsGap a b g ∧
          (g.bounds = (a.bounds.2, b.bounds.1) ↔ a.offset = 0 ∧ b.offset = 0)) ∧
    ((∀ a ∈ d.held first, a.offset = 0) → (∀ b ∈ d.held second, b.offset = 0) →
      ∀ g ∈ d.between first second distance,
        (∃ a ∈ d.held first, g.bounds.1 = a.bounds.2) ∧
        (∃ b ∈ d.held second, g.bounds.2 = b.bounds.1) ∧
        1 ≤ g.length ∧ g.length ≤ distance) := by
  intro d
  have hd : d.Sorted := sorted_afterAll (sorted_ofString text lower) calls
  constructor
  · intro g
    rw [mem_between hd]
    refine and_congr_right fun _ => exists_congr fun a => and_congr_right fun _ =>
      exists_congr fun b => and_congr_right fun _ => (and_iff_left_of_imp fun hgap => ?_).symm
    rw [Prod.ext_iff, hgap.bounds_iff.1, hgap.bounds_iff.2]
  · intro hfirst hsecond g hg
    obtain ⟨hlength, a, ha, b, hb, hgap⟩ := (mem_between hd).mp hg
    obtain ⟨hstart, hstop⟩ := hgap.bounds_iff
    exact ⟨⟨a, ha, hstart.mpr (hfirst a ha)⟩, ⟨b, hb, hstop.mpr (hsecond b hb)⟩, hlength⟩

/-- Two gaps behind one span, each as far as one of two others. -/
theorem gaps_lie_between_spans_at_offset_zero_two :
    let d := (ofString "ab  cd ef" true).afterAll
      [.span "a" ⟨0, 2, 0, by decide⟩, .spans "b" [⟨7, 9, 0, by decide⟩, ⟨4, 6, 0, by decide⟩]]
    (∀ a ∈ d.held "a", a.offset = 0) ∧ (∀ b ∈ d.held "b", b.offset = 0) ∧
      d.between "a" "b" 5 = [⟨2, 4, 0, by decide⟩, ⟨2, 7, 0, by decide⟩] ∧
      ∀ g ∈ d.between "a" "b" 5, (∃ a ∈ d.held "a", g.bounds.1 = a.bounds.2) ∧
        (∃ b ∈ d.held "b", g.bounds.2 = b.bounds.1) ∧ 1 ≤ g.length ∧ g.length ≤ 5 := by
  intro d
  have ha : d.held "a" = [⟨0, 2, 0, by decide⟩] := by unfold d; cbv
  have hb : d.held "b" = [⟨4, 6, 0, by decide⟩, ⟨7, 9, 0, by decide⟩] := by unfold d; cbv
  have hfirst : ∀ a ∈ d.held "a", a.offset = 0 := by simp [ha]
  have hsecond : ∀ b ∈ d.held "b", b.offset = 0 := by simp [hb]
  refine ⟨hfirst, hsecond, by unfold d; cbv, ?_⟩
  exact (gaps_lie_between_spans_at_offset_zero "ab  cd ef" true _ "a" "b" 5).2 hfirst hsecond

/-- **A gap behind a span that is counted from its line is looked for too early in the text.**  The
span lies behind the other one in the text, but its own stop is before the other's start. -/
theorem gap_behind_span_of_a_line :
    let d := (ofString "a b\nc d" true).afterAll
      [.span "c" ⟨0, 1, 4, by decide⟩, .span "b" ⟨2, 3, 0, by decide⟩]
    d.held "c" = [⟨0, 1, 4, by decide⟩] ∧ d.held "b" = [⟨2, 3, 0, by decide⟩] ∧
      d.between "c" "b" 5 = [⟨1, 2, 0, by decide⟩] ∧
      ¬ ∀ g ∈ d.between "c" "b" 5, (∃ a ∈ d.held "c", g.bounds.1 = a.bounds.2) ∧
        (∃ b ∈ d.held "b", g.bounds.2 = b.bounds.1) ∧ 1 ≤ g.length ∧ g.length ≤ 5 := by
  intro d
  have hc : d.held "c" = [⟨0, 1, 4, by decide⟩] := by unfold d; cbv
  have hb : d.held "b" = [⟨2, 3, 0, by decide⟩] := by unfold d; cbv
  have hbetween : d.between "c" "b" 5 = [⟨1, 2, 0, by decide⟩] := by unfold d; cbv
  refine ⟨hc, hb, hbetween, fun hall => ?_⟩
  rw [hc, hbetween] at hall
  obtain ⟨⟨a, ha, hstart⟩, -⟩ := hall _ (List.mem_singleton_self _)
  rw [List.mem_singleton.mp ha] at hstart
  exact absurd hstart (by decide)

end Document

end TaggedText
