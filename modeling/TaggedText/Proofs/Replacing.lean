/-
# Replacing the spans of a tag

The spans of a tag are merged and then replaced from the last one to the first, each in the text
that the later ones have left.  What has been replaced stands behind the spans that are still to
come, so it makes no difference to whether these lie in the text (`liesIn_replaceAll`), though the
text has become longer or shorter and its characters stand elsewhere.

So the outcome can be told from left to right: the merged spans that lie in the text as it was leave
parts of it in front, between and behind (`Parts`), and `replacing_keeps_what_is_outside`: **the new
text is made of these parts, with the replacement once in place of each of those spans**.  For the
spans to be counted from the beginning of the text they have to fit into words; with one that does
not, the sums overflow (`Checked.overflows_replace`).
-/
import TaggedText.Proofs.Checked.Document
import TaggedText.Proofs.Spans.Merging
import Mathlib

namespace TaggedText

/-- Both bounds of the span are positions of the text: it does not reach past the end of the text
and splits no character. -/
def Span.liesIn (text : List Char) (a : Span) : Bool :=
  Text.isBoundary text a.start && Text.isBoundary text a.stop

namespace Document

variable {a b : Span} {spans rest : List Span} {parts : List (List Char)} {point : Nat}
variable {text new front piece back : List Char}

/-! ## 1. Replacing one span -/

theorem liesIn_iff :
    a.liesIn text = true ↔ ∃ front piece back, Text.Cut text a.start a.stop front piece back := by
  rw [Text.exists_cut_iff, and_iff_right a.start_le_stop, Span.liesIn, Bool.and_eq_true]

theorem replaceAt_of_cut (h : Text.Cut text a.start a.stop front piece back) :
    replaceAt new text a = front ++ (new ++ back) := by
  have hsplice : Text.splice? text a.start a.stop new = some (front ++ (new ++ back)) :=
    Text.splice?_eq_some_iff.mpr ⟨front, piece, back, h, rfl⟩
  rw [replaceAt, hsplice, Option.getD_some]

theorem replaceAt_of_not_liesIn (h : a.liesIn text = false) : replaceAt new text a = text := by
  rw [replaceAt]
  cases hsplice : Text.splice? text a.start a.stop new with
  | none => rfl
  | some result =>
    obtain ⟨front, piece, back, hcut, -⟩ := Text.splice?_eq_some_iff.mp hsplice
    have hlies := liesIn_iff.mpr ⟨front, piece, back, hcut⟩
    exact absurd (h.symm.trans hlies) Bool.false_ne_true

/-- **Replacing a span makes no difference to a span before it.** -/
theorem liesIn_replaceAt (h : a.stop ≤ b.start) :
    a.liesIn (replaceAt new text b) = a.liesIn text := by
  have ha := a.start_le_stop
  cases hb : b.liesIn text with
  | false => rw [replaceAt_of_not_liesIn hb]
  | true =>
    obtain ⟨front, piece, back, hcut⟩ := liesIn_iff.mp hb
    have hstart := hcut.start
    rw [replaceAt_of_cut hcut, hcut.text, Span.liesIn, Span.liesIn,
      Text.isBoundary_append_congr (by omega : a.start ≤ Text.width front),
      Text.isBoundary_append_congr (by omega : a.stop ≤ Text.width front)]

/-! ## 2. What spans leave of a text -/

/-- The parts that spans leave of a text, from a position on: in front of the first span, between
two spans, and behind the last one.  Each part ends at the position where the next span starts, and
the next part begins where that span stops. -/
inductive Parts : Nat → List Char → List Span → List (List Char) → Prop
  | last (point : Nat) (text : List Char) : Parts point text [] [text]
  | span {point : Nat} {a : Span} {rest : List Span} {part piece back : List Char}
      {parts : List (List Char)} (hstart : point + Text.width part = a.start)
      (hstop : a.start + Text.width piece = a.stop) (hrest : Parts a.stop back rest parts) :
      Parts point (part ++ (piece ++ back)) (a :: rest) (part :: parts)

theorem Parts.length_eq (h : Parts point text spans parts) : parts.length = spans.length + 1 := by
  induction h with
  | last point text => rfl
  | span hstart hstop hrest ih => rw [List.length_cons, List.length_cons, ih]

theorem Parts.ne_nil (h : Parts point text spans parts) : parts ≠ [] :=
  List.ne_nil_of_length_eq_add_one h.length_eq

/-- **Spans tell the parts that they leave.** -/
theorem Parts.unique {parts' : List (List Char)} (h : Parts point text spans parts)
    (h' : Parts point text spans parts') : parts' = parts := by
  induction h generalizing parts' with
  | last point text =>
    cases h'
    rfl
  | @span point a rest part piece back parts hstart hstop hrest ih =>
    generalize htext : part ++ (piece ++ back) = text at h'
    cases h' with
    | span hstart' hstop' hrest' =>
      obtain ⟨rfl, hbehind⟩ := Text.append_inj_of_width_eq htext (by omega)
      obtain ⟨rfl, rfl⟩ := Text.append_inj_of_width_eq hbehind (by omega)
      rw [ih hrest']

/-! ## 3. Replacing spans from the last one to the first -/

/-- The text with spans replaced, the last one first. -/
def replaceAll (new text : List Char) (spans : List Span) : List Char :=
  spans.foldr (fun a text => replaceAt new text a) text

theorem replaceAll_cons (new text : List Char) (a : Span) (rest : List Span) :
    replaceAll new text (a :: rest) = replaceAt new (replaceAll new text rest) a := rfl

theorem liesIn_replaceAll (h : ∀ b ∈ spans, a.stop ≤ b.start) :
    a.liesIn (replaceAll new text spans) = a.liesIn text := by
  induction spans with
  | nil => rfl
  | cons b rest ih =>
    obtain ⟨hb, hrest⟩ := List.forall_mem_cons.mp h
    rw [replaceAll_cons, liesIn_replaceAt hb, ih hrest]

/-- **Spans in order that are replaced from the last one to the first leave the parts outside of
those that lie in the text**, and each of these is replaced once.  The induction goes from left to
right: in the text that the later spans have left, what is up to the position where they start is as
it was. -/
theorem exists_parts_replaceAll (horder : spans.Pairwise fun a b => a.stop ≤ b.start)
    (htext : text = front ++ back) (hbehind : ∀ a ∈ spans, Text.width front ≤ a.start) :
    ∃ parts, Parts (Text.width front) back (spans.filter (Span.liesIn text)) parts ∧
      ∀ new, replaceAll new text spans = front ++ new.intercalate parts := by
  induction spans generalizing front back with
  | nil => exact ⟨[back], .last _ back, fun new => by rw [List.intercalate_singleton]; exact htext⟩
  | cons a rest ih =>
    obtain ⟨ha, hrest⟩ := List.pairwise_cons.mp horder
    obtain ⟨hfirst, hothers⟩ := List.forall_mem_cons.mp hbehind
    cases hlies : a.liesIn text with
    | false =>
      obtain ⟨parts, hparts, hreplaced⟩ := ih hrest htext hothers
      refine ⟨parts, ?_, fun new => ?_⟩
      · rw [List.filter_cons_of_neg (by simp [hlies])]
        exact hparts
      · rw [replaceAll_cons, replaceAt_of_not_liesIn, hreplaced]
        rw [liesIn_replaceAll ha, hlies]
    | true =>
      obtain ⟨first, piece, last, hcut⟩ := liesIn_iff.mp hlies
      have hstart := hcut.start
      have hstop := hcut.stop
      have hwidth : Text.width (first ++ piece) = a.stop := by rw [Text.width_append, hstop]
      obtain ⟨part, rfl, rfl⟩ :=
        Text.exists_eq_append_of_width_le (htext.symm.trans hcut.text) (by omega)
      obtain ⟨parts, hparts, hreplaced⟩ := ih hrest
        (by rw [hcut.text, ← List.append_assoc] : text = (front ++ part ++ piece) ++ last)
        (fun b hb => by rw [hwidth]; exact ha b hb)
      refine ⟨part :: parts, ?_, fun new => ?_⟩
      · rw [List.filter_cons_of_pos hlies]
        rw [hwidth] at hparts
        rw [Text.width_append] at hstart hstop
        exact .span hstart (by omega) hparts
      · have hagain : Text.Cut (replaceAll new text rest) a.start a.stop (front ++ part) piece
            (new.intercalate parts) :=
          ⟨by rw [hreplaced, List.append_assoc], hstart, hstop⟩
        rw [replaceAll_cons, replaceAt_of_cut hagain,
          List.intercalate_cons_of_ne_nil hparts.ne_nil, List.append_assoc, List.append_assoc]

/-! ## 4. Replacing a tag -/

variable {d : Document} {tag : String}

theorem exists_merge_absolute (spans : List Span) :
    ∃ merged, Spans.merge false (spans.map Span.absolute) = .ok merged ∧
      merged.Pairwise Span.Clear ∧ ∀ e ∈ merged, e.offset = 0 := by
  apply Spans.exists_merge_of_offset_zero
  intro e he
  obtain ⟨a, -, rfl⟩ := List.mem_map.mp he
  rfl

theorem replace_of_defined (hdefined : d.defined tag = .ok spans) {merged : List Span}
    (hmerged : Spans.merge false (spans.map Span.absolute) = .ok merged) (new : List Char) :
    d.replace tag new = .ok (replaceAll new d.text merged) := by
  unfold replace
  rw [hdefined]
  change (Spans.merge false (spans.map Span.absolute)).bind
    (fun merged => .ok (merged.reverse.foldl (replaceAt new) d.text)) = _
  rw [hmerged, replaceAll, ← List.foldl_reverse]
  rfl

/-- The parts are the same for all replacements. -/
theorem exists_parts_replace (hdefined : d.defined tag = .ok spans) {merged : List Span}
    (hmerged : Spans.merge false (spans.map Span.absolute) = .ok merged) :
    ∃ parts, Parts 0 d.text (merged.filter (Span.liesIn d.text)) parts ∧
      ∀ new, d.replace tag new = .ok (new.intercalate parts) := by
  obtain ⟨merged', hmerged', hclear, -⟩ := exists_merge_absolute spans
  cases hmerged.symm.trans hmerged'
  obtain ⟨parts, hparts, hreplaced⟩ := exists_parts_replaceAll (hclear.imp And.left)
    (List.nil_append d.text).symm fun a _ => Nat.zero_le a.start
  refine ⟨parts, hparts, fun new => ?_⟩
  rw [replace_of_defined hdefined hmerged, hreplaced, List.nil_append]

end Document

end TaggedText
