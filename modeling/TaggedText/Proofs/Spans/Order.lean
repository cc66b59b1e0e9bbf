/-
# The order of spans

Spans are ordered by start, then stop, then offset, so that only equal spans share a place in the
order.  Every list can be sorted by it (`sorted_sort`); a sorted list may hold a span repeatedly.
-/
import TaggedText.Span
import Mathlib.Data.List.Pairwise
import Mathlib.Data.List.Sort

namespace TaggedText

instance : Std.TransOrd Span :=
  inferInstanceAs (Std.TransCmp (compareLex (compareOn Span.start)
    (compareLex (compareOn Span.stop) (compareOn Span.offset))))

instance : Std.LawfulEqOrd Span where
  compare_self {a} := Std.ReflCmp.compare_self
  eq_of_compare {a b} h := by
    obtain ⟨hstart, h⟩ := Ordering.then_eq_eq.mp h
    obtain ⟨hstop, hoffset⟩ := Ordering.then_eq_eq.mp h
    cases a
    cases b
    simp_all

namespace Span

variable {a b c : Span}

/-! ## 1. Comparing two spans -/

theorem compare_swap (a b : Span) : Span.compare b a = (Span.compare a b).swap :=
  (Std.OrientedCmp.eq_swap : Ord.compare b a = (Ord.compare a b).swap)

theorem compare_eq_eq : Span.compare a b = .eq ↔ a = b :=
  (Std.LawfulEqCmp.compare_eq_iff_eq : Ord.compare a b = .eq ↔ a = b)

theorem compare_eq_gt : Span.compare a b = .gt ↔ Span.compare b a = .lt := by
  rw [compare_swap a b]
  cases Span.compare a b <;> simp

theorem le_total (a b : Span) : (le a b || le b a) = true := by
  rw [le, le, compare_swap a b]
  cases Span.compare a b <;> rfl

theorem le_trans (hab : le a b = true) (hbc : le b c = true) : le a c = true :=
  (Std.TransCmp.isLE_trans hab hbc : (Ord.compare a c).isLE = true)

theorem le_of_lt (h : Span.compare a b = .lt) : le a b = true := by
  rw [le, h]
  rfl

theorem lt_of_lt_of_le (hab : Span.compare a b = .lt) (hbc : le b c = true) :
    Span.compare a c = .lt :=
  (Std.TransCmp.lt_of_lt_of_isLE hab hbc : Ord.compare a c = .lt)

theorem lt_of_le_of_lt (hab : le a b = true) (hbc : Span.compare b c = .lt) :
    Span.compare a c = .lt :=
  (Std.TransCmp.lt_of_isLE_of_lt hab hbc : Ord.compare a c = .lt)

theorem ne_of_lt (h : Span.compare a b = .lt) : a ≠ b := by
  intro hab
  rw [compare_eq_eq.mpr hab] at h
  cases h

/-- **The order looks at the start first, then at the stop, and last at the offset.** -/
theorem le_iff : le a b = true ↔ a.start < b.start ∨ a.start = b.start ∧
    (a.stop < b.stop ∨ a.stop = b.stop ∧ a.offset ≤ b.offset) := by
  simp only [le, Span.compare, Ordering.isLE_then_iff_and, Nat.isLE_compare, Nat.compare_eq_lt]
  omega

theorem lt_of_start_lt (h : a.start < b.start) : Span.compare a b = .lt := by
  rw [Span.compare, Nat.compare_eq_lt.mpr h]
  rfl

theorem le_refl (a : Span) : le a a = true := by
  rw [le_iff]
  omega

theorem le_antisymm (hab : le a b = true) (hba : le b a = true) : a = b := by
  rw [le_iff] at hab hba
  cases a
  cases b
  simp only [mk.injEq] at hab hba ⊢
  omega

/-! ## 2. Sorted lists -/

/-- Where different members of a list are never related, related ones are the same. -/
theorem eq_of_pairwise_not {α : Type} {l : List α} {R : α → α → Prop} {x y : α}
    (hsymm : ∀ x y, R x y → R y x) (h : l.Pairwise fun x y => ¬ R x y) (hx : x ∈ l) (hy : y ∈ l)
    (hxy : R x y) : x = y := by
  have : Std.Symm fun x y => ¬ R x y := ⟨fun x y hnot hyx => hnot (hsymm y x hyx)⟩
  by_contra hne
  exact h.forall hx hy hne hxy

/-- No span is before one that it follows. -/
def Sorted (spans : List Span) : Prop := spans.Pairwise fun a b => le a b = true

theorem sorted_sort (spans : List Span) : Sorted (sort spans) := by
  apply List.pairwise_mergeSort
  · exact fun _ _ _ => le_trans
  · exact le_total

variable {spans : List Span}

theorem mem_sort : a ∈ sort spans ↔ a ∈ spans := List.mem_mergeSort

theorem nodup_sort : (sort spans).Nodup ↔ spans.Nodup := (List.mergeSort_perm _ _).nodup_iff

theorem sort_of_sorted (h : Sorted spans) : sort spans = spans := List.mergeSort_of_pairwise h

theorem sorted_append {front back : List Span} : Sorted (front ++ back) ↔
    Sorted front ∧ Sorted back ∧ ∀ a ∈ front, ∀ b ∈ back, le a b = true :=
  List.pairwise_append

/-- The first span of a sorted list is not behind any span of it. -/
theorem Sorted.head_le (h : Sorted (a :: spans)) : ∀ b ∈ a :: spans, le a b = true := by
  intro b hb
  rcases List.mem_cons.mp hb with rfl | hb
  · exact le_refl b
  · exact (List.pairwise_cons.mp h).1 b hb

/-- **What stands before a place of a sorted list is not greater, and what stands behind it is not
less.** -/
theorem Sorted.le_and_le (h : Sorted spans) {i : Nat} (ha : spans[i]? = some a) :
    (∀ b ∈ spans.take i, le b a = true) ∧ ∀ b ∈ spans.drop (i + 1), le a b = true := by
  obtain ⟨hi, rfl⟩ := List.getElem?_eq_some_iff.mp ha
  have hsplit : spans = spans.take i ++ spans[i] :: spans.drop (i + 1) := by
    rw [← List.drop_eq_getElem_cons hi, List.take_append_drop]
  rw [hsplit] at h
  obtain ⟨-, hbehind, hbefore⟩ := List.pairwise_append.mp h
  exact ⟨fun b hb => hbefore b hb _ List.mem_cons_self, (List.pairwise_cons.mp hbehind).1⟩

/-- **A span put between lesser and greater ones keeps the order.** -/
theorem Sorted.insert {front back : List Span} (h : Sorted (front ++ back))
    (hfront : ∀ b ∈ front, Span.compare b a = .lt) (hback : ∀ b ∈ back, Span.compare a b = .lt) :
    Sorted (front ++ a :: back) := by
  obtain ⟨hf, hb, hfb⟩ := List.pairwise_append.mp h
  refine List.pairwise_append.mpr
    ⟨hf, List.pairwise_cons.mpr ⟨fun b hmem => le_of_lt (hback b hmem), hb⟩, fun b hmem c hc => ?_⟩
  rcases List.mem_cons.mp hc with rfl | hc
  · exact le_of_lt (hfront b hmem)
  · exact hfb b hmem c hc

end Span

end TaggedText
