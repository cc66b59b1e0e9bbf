/-
# How two spans lie

The relations of interval algebra compare the bounds of two spans, each by inequalities of its own:
six that may hold either way round, and equality.  That makes thirteen ways for one span to lie to
another one (`Placement`).

* One of them always holds (`holds_placement`), and no other does, **unless an empty span stands at
  a border of the other one** (`existsUnique_holds_iff`).  Spans that touch meet; if one of them is
  empty they intersect as well, and that is another way to lie.
* Nine of the thirteen make up `intersects` (`intersects_iff_exists_placement`); the other four hold
  spans apart.
* `intersectionLength` counts from the later start to the earlier stop, whichever span each of these
  belongs to; **that is the number of positions in both spans** (`intersectionLength_eq_card`).

The relations leave the offset out, and a position is counted from the offset of the span that it
lies in.  For spans with one offset that makes no difference: the parts of the text that they denote
lie as the spans do, and share as many positions (`holds_absolute`, `intersectionLength_absolute`).
-/
import TaggedText.Proofs.Spans.Covering
import Mathlib.Order.Interval.Finset.Nat

namespace TaggedText

/-! ## 1. Thirteen ways to lie -/

/-- The relations of interval algebra that two spans may have either way round. -/
inductive Directed where
  | before
  | meets
  | overlaps
  | starts
  | during
  | finishes
deriving DecidableEq

namespace Directed

/-- The first span is related to the second. -/
def holds : Directed → Span → Span → Bool
  | before => Span.before
  | meets => Span.meets
  | overlaps => Span.overlaps
  | starts => Span.starts
  | during => Span.during
  | finishes => Span.finishes

/-- The inequalities between the bounds. -/
def Bounds (a b : Span) : Directed → Prop
  | before => a.stop < b.start
  | meets => a.stop = b.start
  | overlaps => a.start < b.start ∧ b.start < a.stop ∧ a.stop < b.stop
  | starts => a.start = b.start ∧ a.stop < b.stop
  | during => b.start < a.start ∧ a.stop < b.stop
  | finishes => b.start < a.start ∧ a.stop = b.stop

theorem holds_iff {a b : Span} (r : Directed) : r.holds a b = true ↔ r.Bounds a b := by
  cases r <;> simp only [holds, Bounds, Span.before, Span.meets, Span.overlaps, Span.starts,
    Span.during, Span.finishes, Bool.and_eq_true, decide_eq_true_eq, beq_iff_eq, and_assoc]

/-- One span has ended before the other one starts, or where it does. -/
def apart : Directed → Bool
  | before | meets => true
  | overlaps | starts | during | finishes => false

end Directed

/-- How a span lies to another one: related to it, having it related to itself, or equal. -/
inductive Placement where
  | forth (r : Directed)
  | back (r : Directed)
  | equals
deriving DecidableEq

namespace Placement

/-- The first span lies to the second in this way. -/
def holds : Placement → Span → Span → Bool
  | forth r, a, b => r.holds a b
  | back r, a, b => r.holds b a
  | equals, a, b => a.equals b

/-- The inequalities between the bounds. -/
def Bounds (a b : Span) : Placement → Prop
  | forth r => r.Bounds a b
  | back r => r.Bounds b a
  | equals => a.start = b.start ∧ a.stop = b.stop

theorem holds_iff {a b : Span} (p : Placement) : p.holds a b = true ↔ p.Bounds a b := by
  cases p with
  | forth r => exact r.holds_iff
  | back r => exact r.holds_iff
  | equals => exact Span.equals_iff

/-- One span has ended before the other one starts, or where it does. -/
def apart : Placement → Bool
  | forth r | back r => r.apart
  | equals => false

end Placement

namespace Span

variable {a b : Span} {p : Placement}

/-! ## 2. The way that holds -/

/-- The way in which a span lies to another one.  Borders that touch are looked at first, as an
empty span has both of its borders there. -/
def placement (a b : Span) : Placement :=
  if a.stop < b.start then .forth .before
  else if b.stop < a.start then .back .before
  else if a.stop = b.start then .forth .meets
  else if b.stop = a.start then .back .meets
  else if a.start < b.start then
    if a.stop < b.stop then .forth .overlaps
    else if a.stop = b.stop then .back .finishes
    else .back .during
  else if a.start = b.start then
    if a.stop < b.stop then .forth .starts
    else if a.stop = b.stop then .equals
    else .back .starts
  else
    if a.stop < b.stop then .forth .during
    else if a.stop = b.stop then .forth .finishes
    else .back .overlaps

theorem holds_placement (a b : Span) : (placement a b).holds a b = true := by
  rw [Placement.holds_iff]
  unfold placement
  split_ifs <;> simp only [Placement.Bounds, Directed.Bounds] <;> omega

/-- One of the spans is empty and stands at a border of the other one. -/
def EmptyAtBorder (a b : Span) : Prop :=
  (a.stop = b.start ∨ b.stop = a.start) ∧ (a.start = a.stop ∨ b.start = b.stop)

theorem eq_placement (hborder : ¬ EmptyAtBorder a b) (h : p.holds a b = true) :
    p = placement a b := by
  have ha := a.start_le_stop
  have hb := b.start_le_stop
  rw [EmptyAtBorder] at hborder
  rw [Placement.holds_iff] at h
  -- the inequalities of a way decide all comparisons up to that way
  cases p with
  | forth r | back r =>
    cases r <;> simp only [Placement.Bounds, Directed.Bounds] at h <;>
      simp (disch := omega) only [placement, if_pos, if_neg]
  | equals =>
    rw [Placement.Bounds] at h
    simp (disch := omega) only [placement, if_pos, if_neg]

/-! ## 3. Ways that intersect -/

theorem intersects_of_directed {r : Directed} (h : r.holds a b = true) (hapart : r.apart = false) :
    a.intersects b = true := by
  cases r with
  | before | meets => cases hapart
  | overlaps | starts | during | finishes =>
    rw [Directed.holds] at h
    simp only [intersects, h, Bool.or_true, Bool.true_or]

/-- **Spans intersect if they lie in a way that does not hold them apart.** -/
theorem intersects_iff_exists_placement :
    a.intersects b = true ↔ ∃ p : Placement, p.holds a b = true ∧ p.apart = false := by
  constructor
  · intro h
    simp only [intersects, Bool.or_eq_true] at h
    rcases h with (((((((h | h) | h) | h) | h) | h) | h) | h) | h
    · exact ⟨.forth .overlaps, h, rfl⟩
    · exact ⟨.forth .starts, h, rfl⟩
    · exact ⟨.forth .during, h, rfl⟩
    · exact ⟨.forth .finishes, h, rfl⟩
    · exact ⟨.back .overlaps, h, rfl⟩
    · exact ⟨.back .starts, h, rfl⟩
    · exact ⟨.back .during, h, rfl⟩
    · exact ⟨.back .finishes, h, rfl⟩
    · exact ⟨.equals, h, rfl⟩
  · rintro ⟨r | r | _, h, hapart⟩
    · exact intersects_of_directed h hapart
    · exact intersects_symm (intersects_of_directed h hapart)
    · rw [Placement.holds] at h
      rw [intersects, h, Bool.or_true]

theorem EmptyAtBorder.intersects (h : EmptyAtBorder a b) : a.intersects b = true := by
  have ha := a.start_le_stop
  have hb := b.start_le_stop
  rw [EmptyAtBorder] at h
  rw [intersects_iff]
  omega

theorem EmptyAtBorder.exists_apart (h : EmptyAtBorder a b) :
    ∃ p : Placement, p.holds a b = true ∧ p.apart = true := by
  rcases h.1 with hmeets | hmeets
  · exact ⟨.forth .meets, (Placement.holds_iff _).mpr hmeets, rfl⟩
  · exact ⟨.back .meets, (Placement.holds_iff _).mpr hmeets, rfl⟩

/-- **Exactly one way holds, unless an empty span stands at a border of the other one.** -/
theorem existsUnique_holds_iff :
    (∃! p : Placement, p.holds a b = true) ↔ ¬ EmptyAtBorder a b := by
  constructor
  · rintro ⟨p, -, hunique⟩ hborder
    -- such spans lie in a way that holds them apart, and in another one that does not
    obtain ⟨apart, hholds, hapart⟩ := hborder.exists_apart
    obtain ⟨joined, hholds', hjoined⟩ := intersects_iff_exists_placement.mp hborder.intersects
    have hsame : apart = joined := (hunique _ hholds).trans (hunique _ hholds').symm
    rw [hsame, hjoined] at hapart
    cases hapart
  · exact fun hborder => ⟨placement a b, holds_placement a b, fun p => eq_placement hborder⟩

/-- Between spans that have positions, intersecting is sharing one. -/
theorem intersects_iff_shares (ha : a.start < a.stop) (hb : b.start < b.stop) :
    a.intersects b = true ↔ a.Shares b := by
  rw [intersects_iff, shares_iff]
  omega

/-! ## 4. Shared positions -/

/-- The positions that lie in the span. -/
def positions (a : Span) : Finset Nat := Finset.Ico a.start a.stop

/-- Whichever span starts first, positions are counted from the later start to the earlier stop. -/
theorem intersectionLength_eq (a b : Span) :
    a.intersectionLength b = min a.stop b.stop - max a.start b.start := by
  have ha := a.start_le_stop
  have hb := b.start_le_stop
  unfold intersectionLength
  split_ifs <;> omega

/-- **The length of an intersection is the number of positions that lie in both spans.** -/
theorem intersectionLength_eq_card (a b : Span) :
    a.intersectionLength b = (a.positions ∩ b.positions).card := by
  rw [intersectionLength_eq, positions, positions, Finset.Ico_inter_Ico, Nat.card_Ico]

theorem intersectionLength_comm (a b : Span) :
    a.intersectionLength b = b.intersectionLength a := by
  rw [intersectionLength_eq_card, intersectionLength_eq_card, Finset.inter_comm]

/-! ## 5. Spans in the text -/

/-- **The parts of the text that two spans with one offset denote lie as the spans do.** -/
theorem holds_absolute (h : a.offset = b.offset) (p : Placement) :
    p.holds a.absolute b.absolute = p.holds a b := by
  rw [Bool.eq_iff_iff, Placement.holds_iff, Placement.holds_iff]
  cases p with
  | forth r | back r =>
    cases r <;> simp only [Placement.Bounds, Directed.Bounds, absolute] <;> omega
  | equals =>
    simp only [Placement.Bounds, absolute]
    omega

/-- They share as many positions, too. -/
theorem intersectionLength_absolute (h : a.offset = b.offset) :
    a.absolute.intersectionLength b.absolute = a.intersectionLength b := by
  rw [intersectionLength_eq, intersectionLength_eq]
  simp only [absolute]
  omega

/-! ## 6. All pairs of spans -/

/-- **The relations part all pairs of spans, and measure what they share.**  Of two spans that have
positions, one lies to the other in exactly one of the thirteen ways, and they intersect exactly if
they share a position.  For all spans, empty ones too: the length of their intersection is the
number of positions they share, that length and intersecting are the same either way round, and one
lies within the other exactly if its bounds do.  Positions are counted from the offset of each span,
as all of these leave the offset out. -/
theorem relations_part_and_measure_pairs (a b : Span) :
    (a.start < a.stop → b.start < b.stop →
      (∃! p : Placement, p.holds a b = true) ∧ (a.intersects b = true ↔ a.Shares b)) ∧
    a.intersectionLength b = (a.positions ∩ b.positions).card ∧
    a.intersectionLength b = b.intersectionLength a ∧
    a.intersects b = b.intersects a ∧
    (a.within b = true ↔ b.start ≤ a.start ∧ a.stop ≤ b.stop) := by
  have hsymm : a.intersects b = b.intersects a :=
    Bool.eq_iff_iff.mpr ⟨intersects_symm, intersects_symm⟩
  refine ⟨fun ha hb => ⟨?_, intersects_iff_shares ha hb⟩, intersectionLength_eq_card a b,
    intersectionLength_comm a b, hsymm, within_iff⟩
  have hborder : ¬ EmptyAtBorder a b := by
    rintro ⟨-, hempty⟩
    omega
  exact existsUnique_holds_iff.mpr hborder

/-- Two spans that overlap by one position, and an empty span at the stop of the first one, which it
intersects and lies within without sharing a position: two ways hold between those. -/
theorem relations_part_and_measure_pairs_border :
    let a : Span := ⟨2, 5, 3, by decide⟩
    let b : Span := ⟨4, 9, 0, by decide⟩
    let border : Span := ⟨5, 5, 0, by decide⟩
    (∃! p : Placement, p.holds a b = true) ∧ placement a b = .forth .overlaps ∧ a.Shares b ∧
      (a.positions ∩ b.positions).card = 1 ∧
      (¬ ∃! p : Placement, p.holds border a = true) ∧ border.intersects a = true ∧
      a.intersects border = true ∧ ¬ border.Shares a ∧ a.intersectionLength border = 0 ∧
      border.within a = true := by
  intro a b border
  obtain ⟨hfilled, hcard, -⟩ := relations_part_and_measure_pairs a b
  obtain ⟨hunique, hintersects⟩ := hfilled (by decide) (by decide)
  obtain ⟨-, -, hcomm, hsymm, hwithin⟩ := relations_part_and_measure_pairs border a
  have hborder : EmptyAtBorder border a := by
    constructor <;> decide
  have hyes : border.intersects a = true := by decide
  exact ⟨hunique, by decide, hintersects.mp (by decide), hcard.symm.trans (by decide),
    fun h => existsUnique_holds_iff.mp h hborder, hyes, hsymm.symm.trans hyes, by decide,
    hcomm.symm.trans (by decide), hwithin.mpr (by decide)⟩

end Span

end TaggedText
