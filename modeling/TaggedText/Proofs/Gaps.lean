/-
# All gaps between two tags

The gaps behind a span are looked for among some of the spans of the second tag only: those that
start too early are skipped, and the first one that is too far away ends the search.  In a list
sorted by starts the ones to be skipped stand in front, and of the others those that are near enough;
so nothing is missed and nothing is added (`gapsBehind_eq`).  The place where the ones to be skipped
end may be found by halving (`partitionPoint_eq`).

The lists of a document are sorted after any calls.  So `gaps_are_those_of_all_pairs`: the gaps are
those that **going through all pairs of spans** gives, in its order and as often.  It is the starts
of the second tag that have to be in order; the stops of the first one need not be.
-/
import TaggedText.Pattern.Compile
import TaggedText.Proofs.Tagging
import Mathlib.Data.List.TakeWhile

namespace TaggedText

/-! ## 1. Conditions that are lost once and for all -/

section Partition

variable {α : Type} {p : α → Bool} {l : List α}

/-- Where a condition is lost once and for all, the members that meet it are the first ones. -/
theorem takeWhile_eq_filter (h : l.Pairwise fun a b => p b = true → p a = true) :
    l.takeWhile p = l.filter p := by
  induction l with
  | nil => rfl
  | cons a l ih =>
    obtain ⟨ha, hl⟩ := List.pairwise_cons.mp h
    by_cases hp : p a = true
    · rw [List.takeWhile_cons_of_pos hp, List.filter_cons_of_pos hp, ih hl]
    · rw [List.takeWhile_cons_of_neg hp, List.filter_cons_of_neg hp]
      exact (List.filter_eq_nil_iff.mpr fun b hb hpb => hp (ha b hb hpb)).symm

/-- The others are the last ones. -/
theorem dropWhile_eq_filter (h : l.Pairwise fun a b => p b = true → p a = true) :
    l.dropWhile p = l.filter fun a => !p a := by
  induction l with
  | nil => rfl
  | cons a l ih =>
    obtain ⟨ha, hl⟩ := List.pairwise_cons.mp h
    by_cases hp : p a = true
    · rw [List.dropWhile_cons_of_pos hp, List.filter_cons_of_neg (by simpa using hp), ih hl]
    · have hall : ∀ b ∈ a :: l, (!p b) = true := by
        intro b hb
        rcases List.mem_cons.mp hb with rfl | hb
        · simpa using hp
        · simpa using fun hpb => hp (ha b hb hpb)
      rw [List.dropWhile_cons_of_neg hp, List.filter_eq_self.mpr hall]

theorem length_takeWhile_eq (h : l.Pairwise fun a b => p b = true → p a = true) :
    (l.takeWhile p).length = l.countP p := by
  rw [takeWhile_eq_filter h, List.countP_eq_length_filter]

/-- A member meets the condition exactly if its index is less than the number of those that do. -/
theorem meets_iff_lt_countP (h : l.Pairwise fun a b => p b = true → p a = true) {i : Nat} {a : α}
    (ha : l[i]? = some a) : p a = true ↔ i < l.countP p := by
  rw [← length_takeWhile_eq h]
  rw [← List.takeWhile_append_dropWhile (p := p) (l := l)] at ha
  by_cases hi : i < (l.takeWhile p).length
  · rw [List.getElem?_append_left hi] at ha
    exact iff_of_true (List.mem_takeWhile_imp (List.mem_of_getElem? ha)) hi
  · rw [List.getElem?_append_right (by omega), dropWhile_eq_filter h] at ha
    have hnot := (List.mem_filter.mp (List.mem_of_getElem? ha)).2
    exact iff_of_false (by simpa using hnot) hi

/-- The place where a condition is lost, between two others: the members before `low` meet it and
those from `high` on do not.  The member in the middle tells which half to look at next. -/
def partitionBetween (p : α → Bool) (l : List α) (low high : Nat) : Nat :=
  if low < high then
    let middle := low + (high - low) / 2
    match l[middle]? with
    | none => low
    | some a =>
      if p a then partitionBetween p l (middle + 1) high else partitionBetween p l low middle
  else low
termination_by high - low

/-- The place where a condition is lost. -/
def partitionPoint (p : α → Bool) (l : List α) : Nat := partitionBetween p l 0 l.length

theorem partitionBetween_eq (h : l.Pairwise fun a b => p b = true → p a = true) {low high : Nat}
    (hlow : low ≤ l.countP p) (hhigh : l.countP p ≤ high) (hlength : high ≤ l.length) :
    partitionBetween p l low high = l.countP p := by
  fun_induction partitionBetween p l low high with
  | case1 low high hlt middle hnone =>
    have := List.getElem?_eq_none_iff.mp hnone
    omega
  | case2 low high hlt middle a ha hp ih =>
    have := (meets_iff_lt_countP h ha).mp hp
    exact ih (by omega) hhigh hlength
  | case3 low high hlt middle a ha hp ih =>
    have := mt (meets_iff_lt_countP h ha).mpr hp
    exact ih hlow (by omega) (by omega)
  | case4 low high hge => omega

/-- **Halving finds the place where a condition is lost once and for all**: as many members are
before it as meet the condition. -/
theorem partitionPoint_eq (h : l.Pairwise fun a b => p b = true → p a = true) :
    partitionPoint p l = l.countP p :=
  partitionBetween_eq h (Nat.zero_le _) List.countP_le_length le_rfl

theorem drop_partitionPoint (h : l.Pairwise fun a b => p b = true → p a = true) :
    l.drop (partitionPoint p l) = l.dropWhile p := by
  calc l.drop (partitionPoint p l)
    _ = (l.takeWhile p ++ l.dropWhile p).drop (l.takeWhile p).length := by
      rw [partitionPoint_eq h, length_takeWhile_eq h, List.takeWhile_append_dropWhile]
    _ = l.dropWhile p := List.drop_left

end Partition

/-! ## 2. The gaps behind a span -/

namespace Document

variable {d : Document} {spans : List Span}

/-- The gap from the stop of a span to the start of another one, if there is one and it is at most
`distance` long. -/
def gapBetween? (distance : Nat) (a b : Span) : Option Span :=
  if h : a.stop < b.start ∧ b.start - a.stop ≤ distance then
    some ⟨a.stop, b.start, 0, Nat.le_of_lt h.1⟩
  else none

/-- The gaps behind a span that a search finds which skips by halving and stops where it is too
far. -/
def gapsBehind (distance : Nat) (spans : List Span) (a : Span) : List Span :=
  ((spans.drop (partitionPoint (fun b => b.start ≤ a.stop) spans)).takeWhile fun b =>
    b.start - a.stop ≤ distance).filterMap fun b => Span.ofBounds? a.stop b.start 0

/-- Spans in order start in order. -/
theorem starts_of_sorted (h : Span.Sorted spans) : spans.Pairwise fun a b => a.start ≤ b.start :=
  h.imp fun hle => by
    rw [Span.le_iff] at hle
    omega

/-- **Among starts in order the search finds all gaps**: none is skipped, none is behind one that is
too far away, and nothing is found that is no gap. -/
theorem gapsBehind_eq (h : spans.Pairwise fun a b => a.start ≤ b.start) (distance : Nat)
    (a : Span) : gapsBehind distance spans a = spans.filterMap (gapBetween? distance a) := by
  have hearly : spans.Pairwise fun b c =>
      decide (c.start ≤ a.stop) = true → decide (b.start ≤ a.stop) = true :=
    h.imp fun hle => by
      simp only [decide_eq_true_eq]
      omega
  have hnear : (spans.filter fun b => !decide (b.start ≤ a.stop)).Pairwise fun b c =>
      decide (c.start - a.stop ≤ distance) = true → decide (b.start - a.stop ≤ distance) = true :=
    (h.sublist List.filter_sublist).imp fun hle => by
      simp only [decide_eq_true_eq]
      omega
  rw [gapsBehind, drop_partitionPoint hearly, dropWhile_eq_filter hearly, takeWhile_eq_filter hnear,
    List.filter_filter, List.filterMap_filter]
  refine List.filterMap_congr fun b _ => ?_
  unfold gapBetween? Span.ofBounds?
  by_cases hgap : a.stop < b.start ∧ b.start - a.stop ≤ distance
  · simp [hgap, Nat.le_of_lt hgap.1]
  · rw [dif_neg hgap, if_neg]
    simpa [and_comm] using hgap

/-! ## 3. The gaps of a document -/

/-- In sorted lists it makes no difference whether the starts that are too early are skipped one by
one or by halving. -/
theorem between_eq_gapsBehind (hd : d.Sorted) (first second : String) (distance : Nat) :
    d.between first second distance =
      (d.held first).flatMap (gapsBehind distance (d.held second)) := by
  unfold between
  refine List.flatMap_congr fun a _ => ?_
  rw [gapsBehind, drop_partitionPoint]
  · rfl
  · exact (starts_of_sorted (hd second)).imp fun hle => by
      simp only [decide_eq_true_eq]
      omega

theorem between_eq_gapsOfPairs (hd : d.Sorted) (first second : String) (distance : Nat) :
    d.between first second distance =
      (d.held first).flatMap fun a => (d.held second).filterMap (gapBetween? distance a) := by
  rw [between_eq_gapsBehind hd]
  exact List.flatMap_congr fun a _ => gapsBehind_eq (starts_of_sorted (hd second)) distance a

/-- **The gaps between two tags are those of all pairs of their spans.**  After any calls, the gaps
are, for each span of the first tag in order and each span of the second tag in order, the part from
the stop of the one to the start of the other, counted from the beginning of the text, wherever that
part is not empty and not longer than the distance; no pair is left out and none is added.  The same
comes out if the starts that are too early are skipped by halving. -/
theorem gaps_are_those_of_all_pairs [Pattern.Engine] (text : String) (lower : Bool)
    (calls : List Call) (first second : String) (distance : Nat) :
    let d := (ofString text lower).afterAll calls
    d.between first second distance =
        (d.held first).flatMap (fun a => (d.held second).filterMap (gapBetween? distance a)) ∧
      d.between first second distance =
        (d.held first).flatMap (gapsBehind distance (d.held second)) := by
  intro d
  have hd : d.Sorted := sorted_afterAll (sorted_ofString text lower) calls
  exact ⟨between_eq_gapsOfPairs hd first second distance,
    between_eq_gapsBehind hd first second distance⟩

/-- The first tag's stops are not in order, and two spans of the second tag, one of them empty,
start at one place. -/
example : ((ofString "abcdefgh" true).afterAll
    [.spans "a" [⟨0, 5, 0, by decide⟩, ⟨1, 2, 0, by decide⟩],
      .spans "b" [⟨3, 4, 0, by decide⟩, ⟨3, 3, 0, by decide⟩, ⟨6, 7, 0, by decide⟩]]).between
        "a" "b" 3 =
      [⟨5, 6, 0, by decide⟩, ⟨2, 3, 0, by decide⟩, ⟨2, 3, 0, by decide⟩] := by cbv

end Document

end TaggedText
