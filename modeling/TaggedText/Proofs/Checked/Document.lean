/-
# Checked operations on documents

Tagging matches, relating tags, looking for text that is not tagged and changing the text, with every
check made.  What keeps the checks from failing is the state of the document: the lists of its tags
are sorted, so that behind the starts that are too early there are only later ones (`between_eq`), and
its spans fit into words, so that they can be counted from the beginning of the text (`untagged_eq`,
`replace_eq`, `applyTags_eq`).

That the spans fit cannot be done without: **with one that does not, each of these three overflows**
(`overflows_untagged`, `overflows_replace`, `overflows_applyTags`).
-/
import TaggedText.Proofs.Checked.Fits
import TaggedText.Proofs.Checked.Lists
import TaggedText.Proofs.Spans.Covering
import TaggedText.Proofs.Text.Positions

namespace TaggedText.Checked

/-! ## 1. Matches -/

/-- The span of a group in a match. -/
def groupSpan (group : Nat) (found : Pattern.Match) : Checked (Option Span) :=
  match found.bounds? group with
  | none => return none
  | some (start, stop) => do
    let a ← span start stop 0
    return some a

/-- The spans of a group in all matches in a text. -/
def matchSpans (f : Pattern.Finder) (group : Nat) (overlapped : Bool) (text : List Char) :
    Checked (List Span) :=
  collect (groupSpan group) (f.matches overlapped text)

/-- **Matches make spans.** -/
theorem matchSpans_eq {f : Pattern.Finder} (h : f.Lawful) (group : Nat) (overlapped : Bool)
    (text : List Char) :
    matchSpans f group overlapped text = .ok (f.spans group overlapped text) := by
  refine collect_eq fun found hfound => ?_
  unfold groupSpan Pattern.Match.span?
  cases hbounds : found.bounds? group with
  | none => rfl
  | some bounds =>
    have hle : bounds.1 ≤ bounds.2 :=
      (h.bounded_of_mem_matches hfound group bounds.1 bounds.2 hbounds).1
    simp only [span_eq hle, ok_bind, Option.bind_some, Span.ofBounds?, dif_pos hle]
    rfl

section Engines

variable [Pattern.Engine]

/-- The spans of a reference. -/
def spansOf (d : Document) (overlapped : Bool) : Reference → Checked (List Span)
  | .tag name => return (d.tags.get? name).getD []
  | .literal text =>
    match Pattern.Engine.literal? text.toList with
    | none => return []
    | some f => matchSpans f 0 overlapped d.text

/-- A new tag for the spans of a group in all matches of a pattern. -/
def tagMatches (d : Document) (tag pattern : String) (group : Nat) (overlapped : Bool) :
    Checked (Document × Except Fault Nat) :=
  match d.tags.get? tag with
  | some _ => return (d, .error (.tagExists tag))
  | none =>
    match Pattern.Engine.compile? pattern.toList with
    | none => return (d, .error .pattern)
    | some f => do
      let found ← matchSpans f group overlapped d.text
      let spans := Span.sort found
      return ({ d with tags := d.tags.put tag spans }, .ok spans.length)

variable [Pattern.LawfulEngine]

theorem spansOf_eq (d : Document) (overlapped : Bool) (r : Reference) :
    spansOf d overlapped r = .ok (d.spansOf overlapped r) := by
  cases r with
  | tag name => rfl
  | literal text =>
    unfold spansOf Document.spansOf
    cases hliteral : Pattern.Engine.literal? text.toList with
    | none => simp only [hliteral]; rfl
    | some f =>
      simp only [hliteral]
      exact matchSpans_eq (Pattern.LawfulEngine.literal hliteral) 0 overlapped d.text

theorem tagMatches_eq (d : Document) (tag pattern : String) (group : Nat) (overlapped : Bool) :
    tagMatches d tag pattern group overlapped =
      .ok (d.tagMatches tag pattern group overlapped) := by
  unfold tagMatches Document.tagMatches
  cases d.tags.get? tag with
  | some spans => rfl
  | none =>
    cases hcompile : Pattern.Engine.compile? pattern.toList with
    | none => rfl
    | some f =>
      simp only [matchSpans_eq (Pattern.LawfulEngine.compile hcompile), ok_bind]
      rfl

end Engines

/-! ## 2. Relating tags -/

/-- A span counted from the start of another one. -/
def relativeTo (a reference : Span) : Checked Span := do
  let start ← minus a.start reference.start
  let stop ← minus a.stop reference.start
  span start stop reference.start

/-- A span counted from the start of the first of some spans that it lies in. -/
def relativeToFirst (references : List Span) (a : Span) : Checked (Option Span) :=
  match references.find? a.within with
  | none => return none
  | some r => do
    let relative ← relativeTo a r
    return some relative

/-- The spans of a tag counted from the starts of those of another. -/
def project (d : Document) (tag reference : String) : Checked (Except Fault (List Span)) :=
  match d.defined tag, d.defined reference with
  | .error e, _ => return .error e
  | .ok _, .error e => return .error e
  | .ok spans, .ok references => do
    let found ← collect (relativeToFirst references) spans
    return .ok (Span.sort found)

/-- **A span can be counted from the start of one that it lies in.** -/
theorem relativeTo_eq {a b : Span} (h : a.within b = true) :
    ∃ relative, relativeTo a b = .ok relative ∧ Document.relativeTo a b = some relative ∧
      relative.offset + relative.stop = a.stop := by
  have hstart := (Span.within_iff.mp h).1
  have ha := a.start_le_stop
  have hle : a.start - b.start ≤ a.stop - b.start := by omega
  refine ⟨⟨a.start - b.start, a.stop - b.start, b.start, hle⟩, ?_, ?_, ?_⟩
  · unfold relativeTo
    rw [minus_eq hstart, ok_bind, minus_eq (by omega : b.start ≤ a.stop), ok_bind, span_eq hle]
  · rw [Document.relativeTo, Span.ofBounds?, dif_pos hle]
  · show b.start + (a.stop - b.start) = a.stop
    omega

theorem relativeToFirst_eq (references : List Span) (a : Span) :
    relativeToFirst references a =
      .ok ((references.find? a.within).bind (Document.relativeTo a)) := by
  unfold relativeToFirst
  cases hfind : references.find? a.within with
  | none => rfl
  | some r =>
    obtain ⟨relative, hchecked, hplain, -⟩ := relativeTo_eq (List.find?_some hfind)
    simp only [hchecked, ok_bind, Option.bind_some, hplain]
    rfl

theorem project_eq (d : Document) (tag reference : String) :
    project d tag reference = .ok (d.project tag reference) := by
  unfold project Document.project
  cases d.defined tag with
  | error e => rfl
  | ok spans =>
    cases d.defined reference with
    | error e => rfl
    | ok references =>
      simp only [collect_eq fun a _ => relativeToFirst_eq references a, ok_bind]
      rfl

/-- The gaps from the stop of a span to starts that are at most `distance` away, until one is too
far away. -/
def gapsWithin (distance : Nat) (a : Span) : List Span → Checked (List Span)
  | [] => return []
  | b :: rest => do
    let room ← minus b.start a.stop
    if room ≤ distance then
      let gap ← span a.stop b.start 0
      let others ← gapsWithin distance a rest
      return gap :: others
    else return []

/-- Between a stop and starts behind it there are gaps. -/
theorem gapsWithin_eq {distance : Nat} {a : Span} {spans : List Span}
    (h : ∀ b ∈ spans, a.stop ≤ b.start) :
    gapsWithin distance a spans =
      .ok ((spans.takeWhile fun b => b.start - a.stop ≤ distance).filterMap fun b =>
        Span.ofBounds? a.stop b.start 0) := by
  induction spans with
  | nil => rfl
  | cons b rest ih =>
    have hb : a.stop ≤ b.start := h b List.mem_cons_self
    unfold gapsWithin
    rw [minus_eq hb, ok_bind]
    by_cases hroom : b.start - a.stop ≤ distance
    · rw [if_pos hroom, span_eq hb, ok_bind, ih fun c hc => h c (List.mem_cons_of_mem _ hc)]
      simp only [List.takeWhile_cons, hroom, decide_true, if_true, List.filterMap_cons,
        Span.ofBounds?, dif_pos hb]
      rfl
    · rw [if_neg hroom]
      simp only [List.takeWhile_cons, hroom, decide_false]
      rfl

/-- The gaps from the stops of one tag to later starts of another. -/
def between (d : Document) (first second : String) (distance : Nat) : Checked (List Span) := do
  let gaps ← (d.held first).mapM fun a =>
    gapsWithin distance a ((d.held second).dropWhile fun b => b.start ≤ a.stop)
  return gaps.flatten

/-- In a sorted list only the first spans start at a point or before. -/
theorem lt_start_of_mem_dropWhile {spans : List Span} (h : Span.Sorted spans) {point : Nat}
    {b : Span} (hb : b ∈ spans.dropWhile fun b => b.start ≤ point) : point < b.start := by
  induction spans with
  | nil => cases hb
  | cons a rest ih =>
    obtain ⟨hle, hrest⟩ := List.pairwise_cons.mp h
    by_cases ha : a.start ≤ point
    · rw [List.dropWhile_cons_of_pos (by simpa using ha)] at hb
      exact ih hrest hb
    · rw [List.dropWhile_cons_of_neg (by simpa using ha)] at hb
      rcases List.mem_cons.mp hb with rfl | hb
      · omega
      · have := Span.le_iff.mp (hle b hb)
        omega

/-- **In sorted lists the gaps between two tags are spans.** -/
theorem between_eq {d : Document} (h : d.Sorted) (first second : String) (distance : Nat) :
    between d first second distance = .ok (d.between first second distance) := by
  unfold between Document.between
  rw [mapM_eq fun a _ => gapsWithin_eq fun b hb =>
    Nat.le_of_lt (lt_start_of_mem_dropWhile (h second) hb), ok_bind, List.flatMap]
  rfl

/-! ## 3. Text that is not tagged -/

/-- The part from a point up to a stop, if there is one. -/
def gap (point stop : Nat) : Checked (List Span) :=
  if point < stop then do
    let a ← span point stop 0
    return [a]
  else return []

theorem gap_eq (point stop : Nat) : gap point stop = .ok (Document.gap point stop) := by
  unfold gap Document.gap
  split
  · next h =>
    rw [span_eq (Nat.le_of_lt h)]
    rfl
  · rfl

/-- The parts from a point up to a stop that spans leave free. -/
def uncovered (stop : Nat) : Nat → List Span → Checked (List Span)
  | point, [] => gap point stop
  | point, a :: rest =>
    if a.stop ≤ point then uncovered stop point rest
    else if stop ≤ a.start then gap point stop
    else do
      let front ← gap point a.start
      let others ← uncovered stop a.stop rest
      return front ++ others

theorem uncovered_eq (stop point : Nat) (spans : List Span) :
    uncovered stop point spans = .ok (Document.uncovered stop point spans) := by
  induction spans generalizing point with
  | nil => exact gap_eq point stop
  | cons a rest ih =>
    unfold uncovered Document.uncovered
    split
    · exact ih point
    split
    · exact gap_eq point stop
    · rw [gap_eq, ok_bind, ih]
      rfl

/-- The parts of the text between two bounds that no span of the references covers. -/
def untagged [Pattern.Engine] (d : Document) (references : List Reference)
    (bounds : Option (Nat × Nat)) : Checked (Except Fault (List Span)) := do
  let (start, stop) := bounds.getD (0, Text.width d.text)
  let covered ← references.mapM fun r => do
    let spans ← spansOf d false r
    spans.mapM absolute
  match ← mergeAll false covered.flatten with
  | .error e => return .error e
  | .ok merged =>
    let free ← uncovered stop start merged
    return .ok free

/-- The spans of references can be counted from the beginning of the text if they fit. -/
theorem covered_eq [Pattern.Engine] [Pattern.LawfulEngine] {d : Document}
    {references : List Reference} (h : ∀ r ∈ references, ∀ a ∈ d.spansOf false r, a.Fits) :
    (references.mapM fun r => do
      let spans ← spansOf d false r
      spans.mapM absolute) =
      Except.ok (references.map fun r => (d.spansOf false r).map Span.absolute) := by
  refine mapM_eq fun r hr => ?_
  rw [spansOf_eq, ok_bind]
  exact mapM_eq fun a ha => absolute_eq (h r hr a ha)

/-- **Spans that fit can be counted from the beginning of the text**, and leave parts of it free
that are spans. -/
theorem untagged_eq [Pattern.Engine] [Pattern.LawfulEngine] {d : Document}
    {references : List Reference} (h : ∀ r ∈ references, ∀ a ∈ d.spansOf false r, a.Fits)
    (bounds : Option (Nat × Nat)) :
    untagged d references bounds = .ok (d.untagged references bounds) := by
  unfold untagged Document.untagged
  simp only [covered_eq h, ok_bind, mergeAll_eq, List.flatMap]
  generalize (references.map fun r => (d.spansOf false r).map Span.absolute).flatten = covered
  cases Spans.merge false covered with
  | error e => rfl
  | ok merged =>
    simp only [uncovered_eq, ok_bind]
    rfl

/-- **One span that does not fit is enough for an overflow.** -/
theorem overflows_untagged [Pattern.Engine] [Pattern.LawfulEngine] {d : Document}
    {references : List Reference} (h : ∃ r ∈ references, ∃ a ∈ d.spansOf false r, ¬ a.Fits)
    (bounds : Option (Nat × Nat)) : Overflows (untagged d references bounds) := by
  refine Overflows.bind (overflows_mapM (fun r _ => ?_) ?_) _
  · rw [spansOf_eq, ok_bind]
    by_cases hfits : ∀ a ∈ d.spansOf false r, a.Fits
    · exact .inl ⟨_, mapM_eq fun a ha => absolute_eq (hfits a ha)⟩
    · exact .inr (overflows_mapM_absolute (by simpa using hfits))
  · obtain ⟨r, hr, hnot⟩ := h
    refine ⟨r, hr, ?_⟩
    rw [spansOf_eq, ok_bind]
    exact overflows_mapM_absolute hnot

/-! ## 4. Changing the text -/

/-- The text with every span of a tag replaced. -/
def replace (d : Document) (tag : String) (new : List Char) : Checked (Except Fault (List Char)) :=
  match d.defined tag with
  | .error e => return .error e
  | .ok spans => do
    let absolutes ← spans.mapM absolute
    match ← mergeAll false absolutes with
    | .error e => return .error e
    | .ok merged => return .ok (merged.reverse.foldl (Document.replaceAt new) d.text)

theorem replace_eq {d : Document} {tag : String} {spans : List Span}
    (hdefined : d.defined tag = .ok spans) (h : ∀ a ∈ spans, a.Fits) (new : List Char) :
    replace d tag new = .ok (d.replace tag new) := by
  unfold replace Document.replace
  simp only [hdefined, mapM_eq fun a ha => absolute_eq (h a ha), ok_bind, mergeAll_eq]
  cases Spans.merge false (spans.map Span.absolute) <;> rfl

theorem overflows_replace {d : Document} {tag : String} {spans : List Span}
    (hdefined : d.defined tag = .ok spans) (h : ∃ a ∈ spans, ¬ a.Fits) (new : List Char) :
    Overflows (replace d tag new) := by
  unfold replace
  simp only [hdefined]
  exact (overflows_mapM_absolute h).bind _

/-- A label of a given width.  What is missing of the width is nothing where the name is too wide. -/
def label (name : List Char) (width : Nat) : Checked (List Char) := do
  let cut := name.take width
  let fill := width - Text.width cut
  let behind ← minus fill (fill / 2)
  return List.replicate (fill / 2) '~' ++ cut ++ List.replicate behind '~'

theorem label_eq (name : List Char) (width : Nat) :
    label name width = .ok (Document.label name width) := by
  simp only [label, minus_eq (Nat.div_le_self _ 2), ok_bind]
  rfl

/-- A name painted over a span. -/
def paint (name text : List Char) (a : Span) : Checked (List Char) := do
  let (start, stop) ← bounds a
  if Text.isBoundary text start && Text.isBoundary text stop then
    let width ← minus stop start
    let painted ← label name width
    if Text.width painted == width then splice text start stop painted else return text
  else return text

/-- **A label is put only where it can be.** -/
theorem paint_eq {a : Span} (h : a.Fits) (name text : List Char) :
    paint name text a = .ok (Document.paint name text a) := by
  have hle : a.bounds.1 ≤ a.bounds.2 := Nat.add_le_add_left a.start_le_stop a.offset
  unfold paint Document.paint
  simp only [bounds_eq h, ok_bind, minus_eq hle, label_eq]
  split
  · next hboundaries =>
    obtain ⟨hstart, hstop⟩ := Bool.and_eq_true_iff.mp hboundaries
    split
    · obtain ⟨result, hresult⟩ := Text.exists_splice? hle hstart hstop
        (Document.label name (a.bounds.2 - a.bounds.1))
      simp only [splice, hresult, Option.getD_some]
    · rfl
  · rfl

theorem overflows_paint {a : Span} (h : ¬ a.Fits) (name text : List Char) :
    Overflows (paint name text a) := (overflows_bounds h).bind _

/-- The text with the spans of some tags painted over by the tags' names. -/
def applyTags (d : Document) (names : List String) : Checked (List Char) :=
  (d.tags.filter fun entry => names.contains entry.1).foldlM
    (fun text (name, spans) => spans.foldlM (paint name.toList) text) d.text

theorem overflows_applyTags {d : Document} {names : List String}
    (h : ∃ entry ∈ d.tags, entry.1 ∈ names ∧ ∃ a ∈ entry.2, ¬ a.Fits) :
    Overflows (applyTags d names) := by
  have hspan (name : String) (a : Span) (text : List Char) :
      (∃ painted, paint name.toList text a = .ok painted) ∨
        Overflows (paint name.toList text a) := by
    by_cases ha : a.Fits
    · exact .inl ⟨_, paint_eq ha name.toList text⟩
    · exact .inr (overflows_paint ha name.toList text)
  refine overflows_foldlM (fun entry _ text => ?_) ?_ d.text
  · by_cases hfits : ∀ a ∈ entry.2, a.Fits
    · exact .inl ⟨_, foldlM_eq (fun a ha text => paint_eq (hfits a ha) entry.1.toList text) text⟩
    · obtain ⟨a, ha, hnot⟩ : ∃ a ∈ entry.2, ¬ a.Fits := by simpa using hfits
      exact .inr (overflows_foldlM (fun b _ => hspan entry.1 b)
        ⟨a, ha, overflows_paint hnot entry.1.toList⟩ text)
  · obtain ⟨entry, htag, hname, a, ha, hnot⟩ := h
    refine ⟨entry, List.mem_filter.mpr ⟨htag, List.contains_iff_mem.mpr hname⟩, fun text => ?_⟩
    exact overflows_foldlM (fun b _ => hspan entry.1 b)
      ⟨a, ha, overflows_paint hnot entry.1.toList⟩ text

end TaggedText.Checked
