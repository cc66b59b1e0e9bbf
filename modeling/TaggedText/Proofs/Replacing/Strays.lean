/-
# Strays among the spans to replace

A stray is a span that does not lie in the text: it reaches past the end, or splits a character.
The spans of a tag are merged before it is looked at which of them lie in the text.  So a stray that
intersects another span may keep that from being replaced, or widen what is replaced
(`strays_block_and_widen`).

* Removing the strays from a tag makes no difference, **whatever the replacement, exactly if the
  merged spans that lie in the text are those that the spans without strays are merged into**;
* and they are **if no stray intersects another span of the tag**, but for one with its bounds.

Both are in `removing_strays_keeps_replacing_if_apart`.  The first needs that the outcome for all
replacements tells which spans were replaced: two replacements tell the parts that are left
(`eq_of_forall_intercalate_eq`), and the parts tell the spans, as leaving out strays only makes spans
narrower (`Parts.spans_unique`).
-/
import TaggedText.Pattern.Compile
import TaggedText.Proofs.Replacing
import TaggedText.Proofs.Spans.Fewer
import TaggedText.Proofs.Tagging

namespace TaggedText.Document

variable {a b : Span} {spans : List Span} {parts parts' : List (List Char)}
variable {point point' : Nat} {text text' : List Char}

/-! ## 1. Replacements tell parts -/

/-- A text in front of any character is not shorter than one that always stands in front too. -/
theorem length_le_of_forall_char {first second : List Char}
    (h : ∀ c : Char, ∃ x y, first ++ c :: x = second ++ y) : second.length ≤ first.length := by
  by_contra hlt
  have hnext : ∀ c : Char, second[first.length]? = some c := by
    intro c
    obtain ⟨x, y, hxy⟩ := h c
    calc second[first.length]?
      _ = (second ++ y)[first.length]? := (List.getElem?_append_left (by omega)).symm
      _ = (first ++ c :: x)[first.length]? := by rw [hxy]
      _ = some c := by simp
  exact absurd (Option.some.inj ((hnext 'a').symm.trans (hnext 'b'))) (by decide)

/-- With a long enough text between them, two parts or more are longer than one. -/
theorem exists_intercalate_ne (first second : List Char) (hparts : parts ≠ []) :
    ∃ new : List Char, new.intercalate (second :: parts) ≠ first := by
  refine ⟨'a' :: first, fun h => ?_⟩
  rw [List.intercalate_cons_of_ne_nil hparts] at h
  have hlength := congrArg List.length h
  simp only [List.length_append, List.length_cons] at hlength
  omega

/-- **The outcome for all texts between them tells parts.** -/
theorem eq_of_forall_intercalate_eq (hparts : parts ≠ []) (hparts' : parts' ≠ [])
    (h : ∀ new : List Char, new.intercalate parts = new.intercalate parts') : parts = parts' := by
  induction parts generalizing parts' with
  | nil => exact absurd rfl hparts
  | cons first rest ih =>
    obtain ⟨second, rest', rfl⟩ := List.exists_cons_of_ne_nil hparts'
    by_cases hrest : rest = []
    · by_cases hrest' : rest' = []
      · subst hrest hrest'
        have heq := h []
        rw [List.intercalate_singleton, List.intercalate_singleton] at heq
        rw [heq]
      · obtain ⟨new, hne⟩ := exists_intercalate_ne first second hrest'
        refine absurd (h new).symm ?_
        rwa [hrest, List.intercalate_singleton]
    · by_cases hrest' : rest' = []
      · obtain ⟨new, hne⟩ := exists_intercalate_ne second first hrest
        refine absurd (h new) ?_
        rwa [hrest', List.intercalate_singleton]
      · have hsplit : ∀ new : List Char, first ++ (new ++ new.intercalate rest) =
            second ++ (new ++ new.intercalate rest') := by
          intro new
          have heq := h new
          rwa [List.intercalate_cons_of_ne_nil hrest, List.intercalate_cons_of_ne_nil hrest',
            List.append_assoc, List.append_assoc] at heq
        have hlength : first.length = second.length := by
          apply Nat.le_antisymm
          · exact length_le_of_forall_char fun c => ⟨_, _, (hsplit [c]).symm⟩
          · exact length_le_of_forall_char fun c => ⟨_, _, hsplit [c]⟩
        obtain ⟨rfl, -⟩ := List.append_inj (hsplit []) hlength
        rw [ih hrest hrest' fun new =>
          List.append_cancel_left (List.append_cancel_left (hsplit new))]

/-! ## 2. Parts tell spans -/

/-- The spans that intersect another one of some others lie in that one. -/
def Narrower (few all : List Span) : Prop :=
  ∀ b ∈ few, ∀ a ∈ all, b.intersects a = true → b.within a = true

theorem Narrower.tail {few all : List Span} (h : Narrower (b :: few) (a :: all)) :
    Narrower few all :=
  fun c hc e he => h c (List.mem_cons_of_mem _ hc) e (List.mem_cons_of_mem _ he)

/-- A position and the rest of the text behind it, once a span is passed. -/
theorem total_of_span {part piece back : List Char} (hstart : point + Text.width part = a.start)
    (hstop : a.start + Text.width piece = a.stop) :
    point + Text.width (part ++ (piece ++ back)) = a.stop + Text.width back := by
  simp only [Text.width_append]
  omega

/-- **What is left between narrower spans cannot lag behind.**  If it is the same as between the
others though it is counted from an earlier position, then the next narrower span starts earlier as
well, so it does not lie in the next one of the others, and stops earlier too: and so on, up to the
end of the text. -/
theorem Parts.not_lagging {few all : List Span} (h : Parts point text all parts)
    (h' : Parts point' text' few parts) (hnarrower : Narrower few all)
    (htotal : point' + Text.width text' = point + Text.width text) : ¬ point' < point := by
  induction h generalizing point' text' few with
  | last point text =>
    generalize hparts : [text] = parts at h'
    cases h' with
    | last =>
      cases hparts
      omega
    | span hstart hstop hrest =>
      cases hparts
      exact absurd rfl hrest.ne_nil
  | @span point a rest part piece back parts hstart hstop hrest ih =>
    generalize hparts : part :: parts = both at h'
    intro hlt
    cases h' with
    | last =>
      cases hparts
      exact hrest.ne_nil rfl
    | @span _ b rest' part' piece' back' parts' hstart' hstop' hrest' =>
      cases hparts
      rw [total_of_span hstart hstop, total_of_span hstart' hstop'] at htotal
      have hfirst : b.start < a.start := by omega
      have hapart : b.intersects a = false := by
        rw [← Bool.not_eq_true]
        intro hintersects
        have hwithin := hnarrower b List.mem_cons_self a List.mem_cons_self hintersects
        have := (Span.within_iff.mp hwithin).1
        omega
      have hclear := Span.clear_iff.mp
        (Span.clear_of_le (Span.le_of_lt (Span.lt_of_start_lt hfirst)) hapart)
      have := a.start_le_stop
      exact ih hrest' hnarrower.tail htotal (by omega)

/-- **Parts tell the spans that leave them**, among spans that are narrower than others. -/
theorem Parts.spans_unique {few all : List Span} (h : Parts point text all parts)
    (h' : Parts point text' few parts) (hnarrower : Narrower few all)
    (hzero : ∀ a ∈ all, a.offset = 0) (hzero' : ∀ b ∈ few, b.offset = 0)
    (htotal : point + Text.width text' = point + Text.width text) : all = few := by
  induction h generalizing text' few with
  | last point text =>
    generalize hparts : [text] = parts at h'
    cases h' with
    | last => rfl
    | span hstart hstop hrest =>
      cases hparts
      exact absurd rfl hrest.ne_nil
  | @span point a rest part piece back parts hstart hstop hrest ih =>
    generalize hparts : part :: parts = both at h'
    cases h' with
    | last =>
      cases hparts
      exact absurd rfl hrest.ne_nil
    | @span _ b rest' part' piece' back' parts' hstart' hstop' hrest' =>
      cases hparts
      rw [total_of_span hstart hstop, total_of_span hstart' hstop'] at htotal
      have hsame : b.start = a.start := by omega
      have hintersects : b.intersects a = true := by
        have := a.start_le_stop
        have := b.start_le_stop
        rw [Span.intersects_iff]
        omega
      have hwithin := Span.within_iff.mp
        (hnarrower b List.mem_cons_self a List.mem_cons_self hintersects)
      have hnot := hrest.not_lagging hrest' hnarrower.tail htotal
      have hstops : b.stop = a.stop := by omega
      obtain ⟨ha, hall⟩ := List.forall_mem_cons.mp hzero
      obtain ⟨hb, hfew⟩ := List.forall_mem_cons.mp hzero'
      obtain rfl : a = b := by
        cases a
        cases b
        simp_all
      rw [ih hrest' hnarrower.tail hall hfew htotal]

/-! ## 3. Merging with and without strays -/

variable {few all merged mergedFew : List Span}

theorem liesIn_hull (ha : a.liesIn text = true) (hb : b.liesIn text = true) :
    (a.hull b).liesIn text = true := by
  simp only [Span.liesIn, Bool.and_eq_true, Span.hull] at ha hb ⊢
  constructor
  · rcases Nat.le_total a.start b.start with hle | hle
    · rw [Nat.min_eq_left hle]
      exact ha.1
    · rw [Nat.min_eq_right hle]
      exact hb.1
  · rcases Nat.le_total a.stop b.stop with hle | hle
    · rw [Nat.max_eq_right hle]
      exact hb.2
    · rw [Nat.max_eq_left hle]
      exact ha.2

/-- **Spans that lie in the text are merged into spans that do.** -/
theorem liesIn_of_merge (h : Spans.merge false spans = .ok merged)
    (hspans : ∀ a ∈ spans, a.liesIn text = true) : ∀ e ∈ merged, e.liesIn text = true := by
  have hrun : ∀ {members current}, Spans.Run false members current →
      (∀ a ∈ members, a.liesIn text = true) → current.liesIn text = true := by
    intro members current hrun
    induction hrun with
    | one a => exact fun hall => hall a (List.mem_singleton_self a)
    | @widened members current next hrun hjoins hoffset ih =>
      intro hall
      exact liesIn_hull (ih fun a ha => hall a (List.mem_append_left _ ha))
        (hall next (List.mem_append_right _ (List.mem_singleton_self next)))
  intro e he
  obtain ⟨members, hmembers, hsublist⟩ := (Spans.inRuns_of_merge h).exists_run e he
  exact hrun hmembers fun a ha => hspans a (Span.mem_sort.mp (hsublist.subset ha))

/-- **What some of the spans are merged into is narrower than what all are.** -/
theorem narrower_of_merge (hsub : few ⊆ all) (hzero : ∀ a ∈ all, a.offset = 0)
    (hall : Spans.merge false all = .ok merged) (hfew : Spans.merge false few = .ok mergedFew) :
    Narrower mergedFew merged := by
  intro b hb a ha hintersects
  obtain ⟨merged', hmerged', hclear, -⟩ := Spans.exists_merge_of_offset_zero hzero
  cases hall.symm.trans hmerged'
  obtain ⟨members, hmembers, hsublist⟩ := (Spans.inRuns_of_merge hfew).exists_run b hb
  have hwider : ∀ c ∈ members, ∃ e ∈ merged, e.start ≤ c.start ∧ c.stop ≤ e.stop := by
    intro c hc
    have hmem : c ∈ Span.sort all :=
      Span.mem_sort.mpr (hsub (Span.mem_sort.mp (hsublist.subset hc)))
    obtain ⟨e, he, -, hwithin⟩ := (Spans.inRuns_of_merge hall).exists_within c hmem
    exact ⟨e, he, hwithin⟩
  obtain ⟨e, he, hwithin⟩ := hmembers.exists_wider hwider hclear
  rw [Span.intersects_iff] at hintersects
  rw [Span.within_iff]
  by_cases hsame : e = a
  · rw [← hsame]
    exact hwithin
  · -- What intersects a span that is clear of the one it lies in is empty and at the border of both.
    have := b.start_le_stop
    rcases Span.clear_or_clear hclear he ha hsame with hclear | hclear
    · rw [Span.clear_iff] at hclear
      omega
    · rw [Span.clear_iff] at hclear
      omega

/-- No stray intersects another span, but for one with its bounds. -/
def StraysApart (text : List Char) (spans : List Span) : Prop :=
  ∀ a ∈ spans, ∀ b ∈ spans, a.liesIn text = false → a.intersects b = true → a.equals b = true

instance : Decidable (StraysApart text spans) :=
  inferInstanceAs (Decidable (∀ a ∈ spans, ∀ b ∈ spans,
    a.liesIn text = false → a.intersects b = true → a.equals b = true))

theorem liesIn_congr (h : a.equals b = true) : a.liesIn text = b.liesIn text := by
  obtain ⟨hstart, hstop⟩ := Span.equals_iff.mp h
  rw [Span.liesIn, Span.liesIn, hstart, hstop]

/-- **A run is all in the text, or made of strays with the same bounds.** -/
theorem StraysApart.run (h : StraysApart text spans) {members : List Span} {current : Span}
    (hrun : Spans.Run false members current) (hmembers : members ⊆ spans) :
    (current.liesIn text = true ∧ ∀ a ∈ members, a.liesIn text = true) ∨
      (current.liesIn text = false ∧ ∀ a ∈ members, a.equals current = true) := by
  induction hrun with
  | one a =>
    cases ha : a.liesIn text with
    | false => exact .inr ⟨rfl, by simp [Span.equals_iff]⟩
    | true => exact .inl ⟨rfl, by simp [ha]⟩
  | @widened members current next hrun hjoins hoffset ih =>
    obtain ⟨hbefore, hlast⟩ := List.append_subset.mp hmembers
    have hnextMem : next ∈ spans := hlast (List.mem_singleton_self next)
    have hjoined : current.intersects next = true := by
      simp only [Spans.joins, Bool.false_and, Bool.or_false, Bool.and_eq_true] at hjoins
      exact hjoins.1
    obtain ⟨a, ha, hintersects⟩ := hrun.exists_intersects hjoined
    rcases ih hbefore with ⟨hcurrent, hall⟩ | ⟨hcurrent, hall⟩
    · have hnext : next.liesIn text = true := by
        by_contra hstray
        have hequals := h next hnextMem a (hbefore ha) (Bool.eq_false_iff.mpr hstray)
          (Span.intersects_symm hintersects)
        exact hstray ((liesIn_congr hequals).trans (hall a ha))
      refine .inl ⟨liesIn_hull hcurrent hnext, List.forall_mem_append.mpr ⟨hall, ?_⟩⟩
      simpa using hnext
    · have hstray : a.liesIn text = false := (liesIn_congr (hall a ha)).trans hcurrent
      have hequals := Span.equals_iff.mp (h a (hbefore ha) next hnextMem hstray hintersects)
      have hsame := Span.equals_iff.mp (hall a ha)
      have hhull : current.equals (current.hull next) = true := by
        simp only [Span.equals_iff, Span.hull]
        omega
      refine .inr ⟨(liesIn_congr hhull).symm.trans hcurrent, List.forall_mem_append.mpr ⟨?_, ?_⟩⟩
      · intro b hb
        have hb' := Span.equals_iff.mp (hall b hb)
        have hhull' := Span.equals_iff.mp hhull
        exact Span.equals_iff.mpr ⟨hb'.1.trans hhull'.1, hb'.2.trans hhull'.2⟩
      · simp only [List.mem_singleton, forall_eq, Span.equals_iff, Span.hull]
        omega

/-- **Strays that are apart are not merged with spans that lie in the text.** -/
theorem kindsApart_of_straysApart (h : StraysApart text spans) :
    Spans.KindsApart (Span.liesIn text) spans := by
  intro members current hrun hmembers a ha
  rcases h.run hrun hmembers with ⟨hcurrent, hall⟩ | ⟨hcurrent, hall⟩
  · rw [hall a ha, hcurrent]
  · exact liesIn_congr (hall a ha)

/-! ## 4. Removing strays -/

variable {d : Document} {tag : String}

/-- The document with a tag whose strays have been removed. -/
def withoutStrays (d : Document) (tag : String) : Document :=
  { d with tags := d.tags.put tag ((d.held tag).filter fun a => a.absolute.liesIn d.text) }

theorem defined_withoutStrays (hdefined : d.defined tag = .ok spans) :
    (d.withoutStrays tag).defined tag = .ok (spans.filter fun a => a.absolute.liesIn d.text) := by
  have hheld : d.held tag = spans := by
    unfold defined at hdefined
    unfold held
    cases hget : d.tags.get? tag with
    | none =>
      rw [hget] at hdefined
      cases hdefined
    | some found =>
      rw [hget] at hdefined
      cases hdefined
      rfl
  rw [defined, withoutStrays, Tags.get?_put, hheld]

theorem absolute_kept : (spans.filter fun a => a.absolute.liesIn text).map Span.absolute =
    (spans.map Span.absolute).filter (Span.liesIn text) := by
  rw [List.filter_map]
  rfl

theorem absolute_offset : ∀ a ∈ spans.map Span.absolute, a.offset = 0 := by
  simp [Span.absolute]

theorem offset_of_merge_absolute (h : Spans.merge false (spans.map Span.absolute) = .ok merged) :
    ∀ e ∈ merged, e.offset = 0 := by
  obtain ⟨merged', hmerged', -, hzero⟩ := exists_merge_absolute spans
  cases h.symm.trans hmerged'
  exact hzero

/-- Without strays, all merged spans are replaced. -/
theorem exists_parts_withoutStrays (hdefined : d.defined tag = .ok spans)
    (h : Spans.merge false ((spans.filter fun a => a.absolute.liesIn d.text).map Span.absolute) =
      .ok mergedFew) :
    ∃ parts, Parts 0 d.text mergedFew parts ∧
      ∀ new, (d.withoutStrays tag).replace tag new = .ok (new.intercalate parts) := by
  obtain ⟨parts, hparts, hreplace⟩ := exists_parts_replace (defined_withoutStrays hdefined) h
  change Parts 0 d.text (mergedFew.filter (Span.liesIn d.text)) parts at hparts
  rw [absolute_kept] at h
  have hlies := liesIn_of_merge h fun a ha => (List.mem_filter.mp ha).2
  rw [List.filter_eq_self.mpr hlies] at hparts
  exact ⟨parts, hparts, hreplace⟩

/-- **The outcome is the same for all replacements exactly if the same spans are replaced.** -/
theorem keeps_replacing_iff (hdefined : d.defined tag = .ok spans)
    (hall : Spans.merge false (spans.map Span.absolute) = .ok merged)
    (hfew : Spans.merge false ((spans.filter fun a => a.absolute.liesIn d.text).map Span.absolute) =
      .ok mergedFew) :
    (∀ new, (d.withoutStrays tag).replace tag new = d.replace tag new) ↔
      merged.filter (Span.liesIn d.text) = mergedFew := by
  obtain ⟨parts, hparts, hreplace⟩ := exists_parts_replace hdefined hall
  obtain ⟨partsFew, hpartsFew, hreplaceFew⟩ := exists_parts_withoutStrays hdefined hfew
  constructor
  · intro h
    have hsame : partsFew = parts := by
      refine eq_of_forall_intercalate_eq hpartsFew.ne_nil hparts.ne_nil fun new => ?_
      have hnew := h new
      rw [hreplaceFew, hreplace] at hnew
      exact Except.ok.inj hnew
    subst hsame
    have hnarrower : Narrower mergedFew merged :=
      narrower_of_merge (absolute_kept ▸ List.filter_subset_self _) absolute_offset hall hfew
    exact hparts.spans_unique hpartsFew
      (fun b hb a ha => hnarrower b hb a (List.mem_filter.mp ha).1)
      (fun a ha => offset_of_merge_absolute hall a (List.mem_filter.mp ha).1)
      (offset_of_merge_absolute hfew) rfl
  · intro h new
    rw [h] at hparts
    rw [hreplaceFew, hreplace, hparts.unique hpartsFew]

theorem fits_withoutStrays (hfits : ∀ a ∈ spans, a.Fits) :
    ∀ a ∈ spans.filter fun a => a.absolute.liesIn text, a.Fits :=
  fun a ha => hfits a (List.mem_filter.mp ha).1

/-- **Removing strays makes no difference exactly if they make none to which spans are replaced**: the
merged spans that lie in the text are those that the others are merged into without the strays.  So
it is if no stray intersects another span of the tag, but for one with its bounds.  If the spans fit
into words, no check fails with the strays or without them. -/
theorem removing_strays_keeps_replacing_if_apart (hdefined : d.defined tag = .ok spans) :
    ∃ merged mergedKept, Spans.merge false (spans.map Span.absolute) = .ok merged ∧
      Spans.merge false ((spans.filter fun a => a.absolute.liesIn d.text).map Span.absolute) =
        .ok mergedKept ∧
      ((∀ new, (d.withoutStrays tag).replace tag new = d.replace tag new) ↔
        merged.filter (Span.liesIn d.text) = mergedKept) ∧
      (StraysApart d.text (spans.map Span.absolute) →
        ∀ new, (d.withoutStrays tag).replace tag new = d.replace tag new) ∧
      ((∀ a ∈ spans, a.Fits) → ∀ new,
        Checked.replace d tag new = .ok (d.replace tag new) ∧
        Checked.replace (d.withoutStrays tag) tag new =
          .ok ((d.withoutStrays tag).replace tag new)) := by
  obtain ⟨merged, hmerged, -⟩ := exists_merge_absolute spans
  obtain ⟨mergedKept, hmergedKept, -⟩ :=
    exists_merge_absolute (spans.filter fun a => a.absolute.liesIn d.text)
  have hiff := keeps_replacing_iff hdefined hmerged hmergedKept
  refine ⟨merged, mergedKept, hmerged, hmergedKept, hiff, fun hapart => hiff.mpr ?_,
    fun hfits new => ⟨Checked.replace_eq hdefined hfits new,
      Checked.replace_eq (defined_withoutStrays hdefined) (fits_withoutStrays hfits) new⟩⟩
  have hfiltered := Spans.merge_filter hmerged
    (fun a ha b hb => (absolute_offset a ha).trans (absolute_offset b hb).symm)
    (kindsApart_of_straysApart hapart)
  rw [← absolute_kept, hmergedKept] at hfiltered
  exact (Except.ok.inj hfiltered).symm

/-- A stray between two spans that lie in the text, given twice, and one behind the text. -/
theorem removing_strays_keeps_replacing_if_apart_between :
    let d := (ofString "héllo" true).afterAll
      [.spans "t" [⟨0, 1, 0, by decide⟩, ⟨2, 4, 0, by decide⟩, ⟨4, 5, 0, by decide⟩,
        ⟨9, 12, 0, by decide⟩, ⟨0, 2, 2, by decide⟩]]
    let spans : List Span := [⟨0, 1, 0, by decide⟩, ⟨0, 2, 2, by decide⟩, ⟨2, 4, 0, by decide⟩,
      ⟨4, 5, 0, by decide⟩, ⟨9, 12, 0, by decide⟩]
    d.defined "t" = .ok spans ∧ StraysApart d.text (spans.map Span.absolute) ∧
      d.replace "t" ['?'] = .ok "?él?o".toList ∧
      ∀ new, (d.withoutStrays "t").replace "t" new = d.replace "t" new := by
  intro d spans
  have hdefined : d.defined "t" = .ok spans := by unfold d; cbv
  have htext : d.text = ['h', 'é', 'l', 'l', 'o'] := by unfold d; cbv
  have hapart : StraysApart d.text (spans.map Span.absolute) := by
    rw [htext]
    decide
  obtain ⟨merged, mergedKept, hmerged, hmergedKept, hiff, hkeeps, -⟩ :=
    removing_strays_keeps_replacing_if_apart hdefined
  exact ⟨hdefined, hapart, by unfold d; cbv, hkeeps hapart⟩

/-- **A stray keeps a span that it intersects from being replaced, or widens what is replaced.**  In
the first document, the span that reaches past the end of the text keeps the first two characters
from being replaced; in the second one, the span that splits the second character has the first one
replaced with it. -/
theorem strays_block_and_widen :
    let blocked := (ofString "short" true).afterAll
      [.spans "t" [⟨0, 2, 0, by decide⟩, ⟨1, 40, 0, by decide⟩]]
    let widened := (ofString "héllo" true).afterAll
      [.spans "t" [⟨0, 2, 0, by decide⟩, ⟨1, 3, 0, by decide⟩]]
    blocked.defined "t" = .ok [⟨0, 2, 0, by decide⟩, ⟨1, 40, 0, by decide⟩] ∧
      blocked.replace "t" ['?'] = .ok "short".toList ∧
      (blocked.withoutStrays "t").replace "t" ['?'] = .ok "?ort".toList ∧
      widened.defined "t" = .ok [⟨0, 2, 0, by decide⟩, ⟨1, 3, 0, by decide⟩] ∧
      widened.replace "t" ['?'] = .ok "?llo".toList ∧
      (widened.withoutStrays "t").replace "t" ['?'] = .ok "h?llo".toList ∧
      ¬ ∀ (d : Document) (tag : String) (spans : List Span), d.defined tag = .ok spans →
        ∀ new, (d.withoutStrays tag).replace tag new = d.replace tag new := by
  intro blocked widened
  have hdefined : blocked.defined "t" = .ok [⟨0, 2, 0, by decide⟩, ⟨1, 40, 0, by decide⟩] := by
    unfold blocked; cbv
  have hwith : blocked.replace "t" ['?'] = .ok "short".toList := by unfold blocked; cbv
  have hwithout : (blocked.withoutStrays "t").replace "t" ['?'] = .ok "?ort".toList := by
    unfold blocked; cbv
  refine ⟨hdefined, hwith, hwithout, by unfold widened; cbv, by unfold widened; cbv,
    by unfold widened; cbv, fun hall => ?_⟩
  have hsame := hwithout.symm.trans ((hall blocked "t" _ hdefined ['?']).trans hwith)
  exact absurd (Except.ok.inj hsame) (by decide)

end TaggedText.Document
