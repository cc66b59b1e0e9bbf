/-
# Matching by key

Going through two sorted lists side by side finds the pairs with the same key: each entry on the
left is paired with every entry on the right that has its key, in order (`matching_eq`).  So rows
of two tables are paired exactly when they agree on the key columns (`mem_matching_keyed`).
-/
import TaggedText.Proofs.Query.Choice
import TaggedText.Proofs.Spans.Order
import Mathlib.Data.List.TakeWhile

namespace TaggedText

/-! ## 1. The order of rows -/

namespace Row

theorem compare_swap (a b : Row) : Ord.compare b a = (Ord.compare a b).swap :=
  Std.OrientedCmp.eq_swap

theorem le_total (a b : Row) : (Row.le a b || Row.le b a) = true := by
  rw [Row.le, Row.le, compare_swap a b]
  cases Ord.compare a b <;> rfl

theorem le_refl (a : Row) : Row.le a a = true := by
  simpa using le_total a a

theorem le_trans {a b c : Row} (h : Row.le a b = true) (h' : Row.le b c = true) :
    Row.le a c = true :=
  Std.TransCmp.isLE_trans h h'

theorem le_antisymm {a b : Row} (h : Row.le a b = true) (h' : Row.le b a = true) : a = b := by
  rw [Row.le] at h
  rw [Row.le, compare_swap a b] at h'
  refine Std.LawfulEqCmp.eq_of_compare (?_ : Ord.compare a b = .eq)
  cases hab : Ord.compare a b <;> simp_all

end Row

namespace Query.Table

/-! ## 2. Blocks of one key -/

/-- The entries are sorted by their keys. -/
def Sorted (entries : Keyed) : Prop := entries.Pairwise fun a b => Row.le a.1 b.1

/-- **Behind the block of the least key the key does not come again.** -/
theorem ne_of_mem_dropWhile {key : Row} : ∀ {entries : Keyed}, Sorted entries →
    (∀ e ∈ entries, Row.le key e.1) →
    ∀ e ∈ entries.dropWhile (fun e => e.1 == key), e.1 ≠ key
  | [], _, _ => by simp
  | first :: rest, hs, hle => by
    obtain ⟨hfirst, hrest⟩ := List.pairwise_cons.mp hs
    by_cases hk : first.1 = key
    · rw [List.dropWhile_cons_of_pos (by simpa using hk)]
      exact ne_of_mem_dropWhile hrest fun e he => hle e (List.mem_cons_of_mem _ he)
    · rw [List.dropWhile_cons_of_neg (by simpa using hk)]
      intro e he hek
      rcases List.mem_cons.mp he with rfl | he
      · exact hk hek
      · exact hk (Row.le_antisymm (hek ▸ hfirst e he) (hle first List.mem_cons_self))

/-- The entries with the least key are those of the block in front. -/
theorem filter_eq_takeWhile {key : Row} {entries : Keyed} (hs : Sorted entries)
    (hle : ∀ e ∈ entries, Row.le key e.1) :
    entries.filter (fun e => e.1 == key) = entries.takeWhile fun e => e.1 == key := by
  have hfront : ∀ e ∈ entries.takeWhile (fun e => e.1 == key), (e.1 == key) = true :=
    fun e he => List.mem_takeWhile_imp (p := fun e => e.1 == key) (x := e) he
  have hdrop := ne_of_mem_dropWhile hs hle
  conv_lhs => rw [← List.takeWhile_append_dropWhile (p := fun e => e.1 == key) (l := entries)]
  rw [List.filter_append, List.filter_eq_self.mpr hfront,
    List.filter_eq_nil_iff.mpr fun e he => by simpa using hdrop e he, List.append_nil]

/-- Entries with another key are found behind the block. -/
theorem filter_dropWhile {key other : Row} (h : other ≠ key) (entries : Keyed) :
    (entries.dropWhile fun e => e.1 == key).filter (fun e => e.1 == other) =
      entries.filter fun e => e.1 == other := by
  conv_rhs => rw [← List.takeWhile_append_dropWhile (p := fun e => e.1 == key) (l := entries)]
  have hfront : (entries.takeWhile fun e => e.1 == key).filter (fun e => e.1 == other) = [] :=
    List.filter_eq_nil_iff.mpr fun e he => by
      have hek : e.1 = key := by simpa using List.mem_takeWhile_imp he
      simpa [hek] using Ne.symm h
  rw [List.filter_append, hfront, List.nil_append]

/-! ## 3. Pairing -/

/-- Every left entry with the right entries of its key. -/
def pairs (left right : Keyed) : List (Row × Row) :=
  left.flatMap fun l => (right.filter fun r => r.1 == l.1).map fun r => (l.2, r.2)

theorem pairs_append (front back right : Keyed) :
    pairs (front ++ back) right = pairs front right ++ pairs back right :=
  List.flatMap_append

theorem pairs_congr {left right right' : Keyed}
    (h : ∀ l ∈ left, right.filter (fun r => r.1 == l.1) = right'.filter fun r => r.1 == l.1) :
    pairs left right = pairs left right' := by
  simp only [pairs, List.flatMap_def]
  congr 1
  exact List.map_congr_left fun l hl => by rw [h l hl]

/-- The least key of a sorted list. -/
theorem Sorted.le_of_mem {first : Row × Row} {rest : Keyed} (h : Sorted (first :: rest)) :
    ∀ e ∈ first :: rest, Row.le first.1 e.1 := by
  intro e he
  rcases List.mem_cons.mp he with rfl | he
  · exact Row.le_refl e.1
  · exact (List.pairwise_cons.mp h).1 e he

/-- **Going through two sorted lists pairs each left entry with the right entries of its key.** -/
theorem matching_eq (left right : Keyed) (hl : Sorted left) (hr : Sorted right) :
    matching left right = pairs left right := by
  fun_induction matching left right with
  | case1 l ls r rs hlt ih =>
    -- the left key is less than every right key
    have hnone : (r :: rs).filter (fun e => e.1 == l.1) = [] := by
      refine List.filter_eq_nil_iff.mpr fun e he hek => ?_
      have hle := hr.le_of_mem e he
      rw [show e.1 = l.1 by simpa using hek, Row.le,
        Row.compare_swap l.1 r.1, hlt] at hle
      simp at hle
    rw [ih (List.pairwise_cons.mp hl).2 hr, pairs, pairs, List.flatMap_cons, hnone]
    rfl
  | case2 l ls r rs hgt ih =>
    rw [ih hl (List.pairwise_cons.mp hr).2]
    refine pairs_congr fun e he => ?_
    have hne : r.1 ≠ e.1 := fun hre => by
      have hle := hl.le_of_mem e he
      rw [← hre, Row.le, hgt] at hle
      simp at hle
    rw [List.filter_cons_of_neg (by simpa using hne)]
  | case3 l ls r rs heq here fromLeft fromRight ih =>
    have hkey : r.1 = l.1 := (Std.LawfulEqCmp.eq_of_compare heq).symm
    have hleft : l :: ls = fromLeft ++ ls.dropWhile here := by
      simp [fromLeft, List.takeWhile_append_dropWhile]
    have hright : (r :: rs).takeWhile here = fromRight := by
      rw [List.takeWhile_cons_of_pos (by simp [here, hkey])]
    have hdrop : (r :: rs).dropWhile here = rs.dropWhile here :=
      List.dropWhile_cons_of_pos (by simp [here, hkey])
    have hmin := fun e he => hl.le_of_mem e (List.mem_cons_of_mem l he)
    have hsub : ∀ entries : Keyed, Sorted entries → Sorted (entries.dropWhile here) :=
      fun _ h => h.sublist (List.dropWhile_sublist _)
    rw [ih (hsub _ (List.pairwise_cons.mp hl).2) (hsub _ (List.pairwise_cons.mp hr).2),
      hleft, pairs_append]
    congr 1
    · -- inside the block of the key
      simp only [pairs, List.flatMap_def]
      congr 1
      refine List.map_congr_left fun e he => ?_
      have hek : e.1 = l.1 := by
        rcases List.mem_cons.mp he with rfl | he
        · rfl
        · simpa [here] using List.mem_takeWhile_imp he
      rw [hek, filter_eq_takeWhile hr (hkey ▸ hr.le_of_mem), ← hright]
    · -- behind it
      rw [← hdrop]
      refine pairs_congr fun e he => filter_dropWhile ?_ _
      exact ne_of_mem_dropWhile (List.pairwise_cons.mp hl).2 hmin e he
  | case4 left right hne =>
    match left, right with
    | [], _ => rfl
    | l :: ls, [] => simp [pairs]
    | l :: ls, r :: rs => exact absurd rfl (hne l ls r rs rfl)

/-! ## 4. Rows with keys -/

theorem sorted_keyed (places : List Nat) (rows : List Row) : Sorted (keyed places rows) := by
  rw [Sorted, keyed]
  apply List.pairwise_mergeSort
  · exact fun _ _ _ => Row.le_trans
  · exact fun a b => Row.le_total a.1 b.1

theorem mem_keyed {places : List Nat} {rows : List Row} {e : Row × Row} :
    e ∈ keyed places rows ↔ e.2 ∈ rows ∧ e.1 = pick places e.2 := by
  rw [keyed, List.mem_mergeSort, List.mem_map]
  constructor
  · rintro ⟨row, hrow, rfl⟩
    exact ⟨hrow, rfl⟩
  · rintro ⟨hrow, hkey⟩
    exact ⟨e.2, hrow, by rw [← hkey]⟩

/-- **Rows are paired exactly when their keys agree.** -/
theorem mem_matching_keyed {places places' : List Nat} {rows rows' : List Row} {x y : Row} :
    (x, y) ∈ matching (keyed places rows) (keyed places' rows') ↔
      x ∈ rows ∧ y ∈ rows' ∧ pick places x = pick places' y := by
  rw [matching_eq _ _ (sorted_keyed _ _) (sorted_keyed _ _), pairs, List.mem_flatMap]
  simp only [List.mem_map, List.mem_filter, Prod.mk.injEq, mem_keyed, beq_iff_eq]
  constructor
  · rintro ⟨e, ⟨hx, hkey⟩, e', ⟨⟨hy, hkey'⟩, hsame⟩, rfl, rfl⟩
    exact ⟨hx, hy, by rw [← hkey, ← hkey', hsame]⟩
  · rintro ⟨hx, hy, hsame⟩
    exact ⟨(pick places x, x), ⟨hx, rfl⟩, (pick places' y, y), ⟨⟨hy, rfl⟩, hsame.symm⟩, rfl, rfl⟩

end Query.Table

end TaggedText
