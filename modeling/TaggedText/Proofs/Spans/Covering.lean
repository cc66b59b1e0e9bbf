/-
# Positions that spans cover

Spans that share a position intersect; a span without positions intersects whatever it touches, at
a border too (`intersects_iff`).  What is said about lists of spans is said position by position: a
list covers a position at an offset if one of its spans with that offset holds it (`Covered`).

A span is clear of a later one if it has ended where the later one starts and does not intersect
it.  In a sorted list of spans that do not intersect, each is clear of all that follow
(`pairwise_clear`).
-/
import TaggedText.Proofs.Spans.Order

namespace TaggedText

namespace Span

variable {a b c : Span} {p : Nat}

/-! ## 1. Positions -/

/-- The position lies in the span. -/
def Holds (a : Span) (p : Nat) : Prop := a.start ≤ p ∧ p < a.stop

instance (a : Span) (p : Nat) : Decidable (a.Holds p) := inferInstanceAs (Decidable (_ ∧ _))

/-- Some position lies in both spans. -/
def Shares (a b : Span) : Prop := ∃ p, a.Holds p ∧ b.Holds p

theorem shares_iff : a.Shares b ↔
    a.start < a.stop ∧ b.start < b.stop ∧ a.start < b.stop ∧ b.start < a.stop := by
  constructor
  · rintro ⟨p, ⟨ha, ha'⟩, hb, hb'⟩
    omega
  · intro h
    exact ⟨max a.start b.start, ⟨by omega, by omega⟩, by omega, by omega⟩

instance (a b : Span) : Decidable (a.Shares b) := decidable_of_iff _ shares_iff.symm

/-! ## 2. Spans that intersect -/

/-- **Spans intersect if they overlap, and also if they touch and one of them is empty.** -/
theorem intersects_iff : a.intersects b = true ↔ a.start ≤ b.stop ∧ b.start ≤ a.stop ∧
    (a.start < b.stop ∧ b.start < a.stop ∨ a.start = a.stop ∨ b.start = b.stop) := by
  have ha := a.start_le_stop
  have hb := b.start_le_stop
  simp only [intersects, overlaps, starts, during, finishes, equals, Bool.or_eq_true,
    Bool.and_eq_true, decide_eq_true_eq, beq_iff_eq]
  omega

/-- **A span lies in another one if its bounds are within the other's.** -/
theorem within_iff : a.within b = true ↔ b.start ≤ a.start ∧ a.stop ≤ b.stop := by
  simp only [within, starts, during, finishes, equals, Bool.or_eq_true, Bool.and_eq_true,
    decide_eq_true_eq, beq_iff_eq]
  omega

theorem equals_iff : a.equals b = true ↔ a.start = b.start ∧ a.stop = b.stop := by
  simp only [equals, Bool.and_eq_true, beq_iff_eq]

theorem equals_symm (h : a.equals b = true) : b.equals a = true := by
  rw [equals_iff] at h ⊢
  omega

/-- Between spans with the same bounds, the offset makes the order. -/
theorem le_iff_of_equals (h : a.equals b = true) : le a b = true ↔ a.offset ≤ b.offset := by
  rw [equals_iff] at h
  rw [le_iff]
  omega

theorem intersects_self (a : Span) : a.intersects a = true := by
  have ha := a.start_le_stop
  rw [intersects_iff]
  omega

theorem intersects_symm (h : a.intersects b = true) : b.intersects a = true := by
  rw [intersects_iff] at h ⊢
  omega

theorem Shares.intersects (h : a.Shares b) : a.intersects b = true := by
  rw [shares_iff] at h
  rw [intersects_iff]
  omega

/-- What stands between two intersecting spans in the order of spans intersects the first one. -/
theorem intersects_of_between (hab : le a b = true) (hbc : le b c = true)
    (h : a.intersects c = true) : a.intersects b = true := by
  have hb := b.start_le_stop
  rw [le_iff] at hab hbc
  rw [intersects_iff] at h ⊢
  omega

/-! ## 3. Spans that are clear of each other -/

/-- The first has ended where the second starts, and they do not intersect. -/
def Clear (a b : Span) : Prop := a.stop ≤ b.start ∧ a.intersects b = false

theorem clear_iff : a.Clear b ↔
    a.stop < b.start ∨ a.stop = b.start ∧ a.start < a.stop ∧ b.start < b.stop := by
  have ha := a.start_le_stop
  have hb := b.start_le_stop
  rw [Clear, ← Bool.not_eq_true, intersects_iff]
  omega

/-- Spans in order that do not intersect are clear of each other. -/
theorem clear_of_le (hle : le a b = true) (h : a.intersects b = false) : a.Clear b := by
  have hb := b.start_le_stop
  refine ⟨?_, h⟩
  rw [le_iff] at hle
  rw [← Bool.not_eq_true, intersects_iff] at h
  omega

theorem Clear.le (h : a.Clear b) : le a b = true := by
  have ha := a.start_le_stop
  rw [clear_iff] at h
  rw [le_iff]
  omega

theorem Clear.not_intersects (h : a.Clear b) : b.intersects a = false := by
  rw [← Bool.not_eq_true]
  intro hba
  exact Bool.false_ne_true (h.2.symm.trans (intersects_symm hba))

/-- **Spans in order that do not intersect can be listed with each clear of all that follow.** -/
theorem pairwise_clear {spans : List Span} (hsorted : Sorted spans)
    (h : spans.Pairwise fun a b => a.intersects b = false) : spans.Pairwise Clear :=
  (hsorted.and h).imp fun hab => clear_of_le hab.1 hab.2

theorem sorted_of_clear {spans : List Span} (h : spans.Pairwise Clear) : Sorted spans :=
  h.imp Clear.le

end Span

namespace Spans

/-! ## 4. Positions of lists -/

/-- A span with this offset holds the position. -/
def Covered (spans : List Span) (offset p : Nat) : Prop :=
  ∃ a ∈ spans, a.offset = offset ∧ a.Holds p

variable {spans more : List Span} {a : Span} {offset p : Nat}

theorem covered_nil : ¬ Covered [] offset p := by
  rintro ⟨a, ha, -⟩
  cases ha

theorem covered_cons : Covered (a :: spans) offset p ↔
    (a.offset = offset ∧ a.Holds p) ∨ Covered spans offset p := by
  simp [Covered]

theorem covered_append : Covered (spans ++ more) offset p ↔
    Covered spans offset p ∨ Covered more offset p := by
  simp only [Covered, List.mem_append, or_and_right, exists_or]

theorem covered_sort : Covered (Span.sort spans) offset p ↔ Covered spans offset p := by
  simp only [Covered, Span.mem_sort]

end Spans

end TaggedText
