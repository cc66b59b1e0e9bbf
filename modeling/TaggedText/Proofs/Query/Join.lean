/-
# The rows of a join

`join_spec` says which choices the join of two tables admits.  This module says which rows it has,
how often each of them, and in which order: the rows of the left table, put in the order of what
they have in the shared columns, are paired each with every row of the right table that has the
same there, in the right table's own order (`join_pairs_rows_that_agree`).  So going through two
sorted lists side by side comes to the same as going through all pairs of rows.

A stable sort is described by what it leaves (`StablySorted`), and there is only one such list
(`StablySorted.unique`).
-/
import TaggedText.Proofs.Query.Table

namespace TaggedText

/-! ## 1. Sorting keeps what is alike in order -/

/-- **Sorting leaves members that are alike in the order they had.** -/
theorem filter_mergeSort {α : Type} {le : α → α → Bool}
    (trans : ∀ a b c, le a b = true → le b c = true → le a c = true)
    (total : ∀ a b, (le a b || le b a) = true) {alike : α → Bool}
    (halike : ∀ a b, alike a = true → alike b = true → le a b = true) (l : List α) :
    (l.mergeSort le).filter alike = l.filter alike := by
  have hpairwise : (l.filter alike).Pairwise fun a b => le a b = true := by
    refine List.pairwise_of_forall_mem_list fun a ha b hb => ?_
    exact halike a b (List.mem_filter.mp ha).2 (List.mem_filter.mp hb).2
  have hsorted : (l.filter alike).Sublist (l.mergeSort le) :=
    List.sublist_mergeSort trans total hpairwise List.filter_sublist
  have hsub : (l.filter alike).Sublist ((l.mergeSort le).filter alike) := by
    simpa [List.filter_filter] using hsorted.filter alike
  have hlength : (l.filter alike).length = ((l.mergeSort le).filter alike).length :=
    ((List.mergeSort_perm l le).filter alike).length_eq.symm
  exact (hsub.eq_of_length hlength).symm

namespace Query.Table

/-- The entries with one key are in the order that their rows had. -/
theorem filter_keyed (places : List Nat) (rows : List Row) (k : Row) :
    ((keyed places rows).filter fun e => e.1 == k) =
      (rows.filter fun row => pick places row == k).map fun row => (pick places row, row) := by
  rw [keyed, filter_mergeSort, List.filter_map]
  · rfl
  · exact fun _ _ _ => Row.le_trans
  · exact fun a b => Row.le_total a.1 b.1
  · intro a b ha hb
    obtain rfl : a.1 = k := by simpa using ha
    obtain hb : b.1 = a.1 := by simpa using hb
    rw [hb]
    exact Row.le_refl a.1

/-- The rows in the order of their keys; rows with the same key are in the order they had. -/
structure StablySorted (key : Row → Row) (rows sorted : List Row) : Prop where
  ordered : sorted.Pairwise fun a b => Row.le (key a) (key b)
  stable : ∀ k, (sorted.filter fun row => key row == k) = rows.filter fun row => key row == k

namespace StablySorted

variable {key : Row → Row} {rows sorted : List Row}

/-- **No row is lost and none comes more often.** -/
theorem perm (h : StablySorted key rows sorted) : sorted.Perm rows := by
  refine List.perm_iff_count.mpr fun row => ?_
  have hcount : ∀ l : List Row,
      (l.filter fun r => key r == key row).count row = l.count row :=
    fun l => List.count_filter (by simp)
  rw [← hcount sorted, h.stable, hcount rows]

theorem mem_iff (h : StablySorted key rows sorted) {row : Row} : row ∈ sorted ↔ row ∈ rows :=
  h.perm.mem_iff

/-- The first row has the least key. -/
theorem le_of_mem {first : Row} {rest : List Row} (h : StablySorted key rows (first :: rest))
    {row : Row} (hrow : row ∈ rows) : Row.le (key first) (key row) = true := by
  rcases List.mem_cons.mp (h.mem_iff.mpr hrow) with rfl | hrest
  · exact Row.le_refl (key row)
  · exact (List.pairwise_cons.mp h.ordered).1 row hrest

/-- **There is only one such list.** -/
theorem unique : ∀ {rows sorted sorted' : List Row}, StablySorted key rows sorted →
    StablySorted key rows sorted' → sorted = sorted'
  | _, [], sorted', h, h' => by
    refine (List.eq_nil_iff_forall_not_mem.mpr fun row hrow => ?_).symm
    exact List.not_mem_nil (h.mem_iff.mpr (h'.mem_iff.mp hrow))
  | _, first :: rest, [], h, h' =>
    absurd (h'.mem_iff.mpr (h.mem_iff.mp List.mem_cons_self)) List.not_mem_nil
  | rows, first :: rest, first' :: rest', h, h' => by
    have hkey : key first = key first' :=
      Row.le_antisymm (h.le_of_mem (h'.mem_iff.mp List.mem_cons_self))
        (h'.le_of_mem (h.mem_iff.mp List.mem_cons_self))
    have hblocks := fun k => (h.stable k).trans (h'.stable k).symm
    have hfirst : first = first' := by
      have hblock := hblocks (key first)
      rw [List.filter_cons_of_pos (by simp), List.filter_cons_of_pos (by simp [hkey])] at hblock
      exact (List.cons.inj hblock).1
    subst hfirst
    have hstable : ∀ k, (rest.filter fun row => key row == k) =
        rest'.filter fun row => key row == k := by
      intro k
      have hblock := hblocks k
      by_cases hk : key first = k
      · rw [List.filter_cons_of_pos (by simpa using hk),
          List.filter_cons_of_pos (by simpa using hk)] at hblock
        exact (List.cons.inj hblock).2
      · rwa [List.filter_cons_of_neg (by simpa using hk),
          List.filter_cons_of_neg (by simpa using hk)] at hblock
    have hrest : StablySorted key rest' rest :=
      ⟨(List.pairwise_cons.mp h.ordered).2, hstable⟩
    have hrest' : StablySorted key rest' rest' :=
      ⟨(List.pairwise_cons.mp h'.ordered).2, fun _ => rfl⟩
    rw [unique hrest hrest']

end StablySorted

/-- Sorting rows with their keys sorts the rows stably. -/
theorem stablySorted_keyed (places : List Nat) (rows : List Row) :
    StablySorted (pick places) rows ((keyed places rows).map Prod.snd) where
  ordered := by
    rw [List.pairwise_map]
    refine (sorted_keyed places rows).imp_of_mem fun {e e'} he he' hle => ?_
    rwa [← (mem_keyed.mp he).2, ← (mem_keyed.mp he').2]
  stable k := by
    rw [List.filter_map]
    have hkey : ∀ e ∈ keyed places rows,
        ((fun row => pick places row == k) ∘ Prod.snd) e = (e.1 == k) := fun e he => by
      rw [Function.comp_apply, ← (mem_keyed.mp he).2]
    rw [List.filter_congr hkey, filter_keyed, List.map_map]
    exact List.map_id _

/-! ## 2. Pairs of rows that agree -/

/-- The span that a row over some columns has in one of them. -/
def spanAt (columns : List Nat) (row : Row) (c : Nat) : Option Span := row[columns.idxOf c]?

/-- What a row of the left table has in the columns that both tables have. -/
def sharedSpans (left right : Table) (row : Row) : Row :=
  (left.columns.filter right.columns.contains).filterMap (spanAt left.columns row)

/-- Two rows have the same in every column that both tables have. -/
def Agree (left right : Table) (l r : Row) : Prop :=
  ∀ c ∈ left.columns, c ∈ right.columns →
    spanAt left.columns l c = spanAt right.columns r c

instance (left right : Table) (l r : Row) : Decidable (Agree left right l r) :=
  inferInstanceAs (Decidable (∀ c ∈ left.columns, c ∈ right.columns →
    spanAt left.columns l c = spanAt right.columns r c))

/-- **The row over some columns has every span of two rows in its column**, and nothing else. -/
structure Places (left right : Table) (columns : List Nat) (l r row : Row) : Prop where
  length : row.length = columns.length
  left : ∀ c ∈ left.columns, spanAt columns row c = spanAt left.columns l c
  right : ∀ c ∈ right.columns, spanAt columns row c = spanAt right.columns r c

/-- Every given row with those rows of the right table that agree with it, in their order. -/
def pairsThatAgree (left right : Table) (rows : List Row) : List (Row × Row) :=
  rows.flatMap fun l => (right.rows.filter fun r => Agree left right l r).map fun r => (l, r)

theorem spanAt_map {columns : List Nat} (a : Choice) {c : Nat} (hc : c ∈ columns) :
    spanAt columns (columns.map a) c = some (a c) :=
  getElem?_map_idxOf a hc

/-- The key of a left row is what it has in the shared columns. -/
theorem pick_eq_sharedSpans (left right : Table) :
    pick ((left.columns.filter right.columns.contains).filterMap left.columns.idxOf?) =
      sharedSpans left right := by
  funext row
  rw [pick, sharedSpans, List.filterMap_filterMap]
  refine List.filterMap_congr fun c hc => ?_
  have hmem : c ∈ left.columns := (List.mem_filter.mp hc).1
  obtain ⟨i, hi⟩ := Option.isSome_iff_exists.mp (List.isSome_idxOf?.mpr hmem)
  rw [spanAt, List.idxOf_eq_getD_idxOf?, hi]
  rfl

section Regular

variable {left right : Table} {l r : Row}

/-- **Rows agree exactly when their keys do.** -/
theorem agree_iff_pick (hl : left.Regular) (hr : right.Regular) (hmem : l ∈ left.rows)
    (hmem' : r ∈ right.rows) :
    Agree left right l r ↔
      pick ((left.columns.filter right.columns.contains).filterMap left.columns.idxOf?) l =
        pick ((left.columns.filter right.columns.contains).filterMap right.columns.idxOf?) r := by
  obtain ⟨a, rfl, -⟩ := hl.exists_admits hmem
  obtain ⟨b, rfl, -⟩ := hr.exists_admits hmem'
  rw [pick_shared_eq_iff]
  refine forall₂_congr fun c hc => imp_congr_right fun hc' => ?_
  rw [spanAt_map a hc, spanAt_map b hc', Option.some_inj]

/-- **Two rows that agree are put together to a row that has the spans of both.** -/
theorem places_combine (hl : left.Regular) (hr : right.Regular) (hmem : l ∈ left.rows)
    (hmem' : r ∈ right.rows) (hagree : Agree left right l r) :
    Places left right (combinedColumns left.columns right.columns) l r
      (combine (sides left.columns right.columns) l r) := by
  obtain ⟨a, rfl, -⟩ := hl.exists_admits hmem
  obtain ⟨b, rfl, -⟩ := hr.exists_admits hmem'
  have hshared : ∀ c ∈ left.columns, c ∈ right.columns → a c = b c := by
    intro c hc hc'
    have h := hagree c hc hc'
    rwa [spanAt_map a hc, spanAt_map b hc', Option.some_inj] at h
  -- the two rows come from one choice
  rw [← Choice.map_glue_left left.columns a b, ← Choice.map_glue_right hshared, combine_map]
  refine ⟨List.length_map _, fun c hc => ?_, fun c hc => ?_⟩
  · rw [spanAt_map _ hc, spanAt_map _ (mem_combinedColumns.mpr (.inl hc))]
  · rw [spanAt_map _ hc, spanAt_map _ (mem_combinedColumns.mpr (.inr hc))]

/-- **Going through both sides in the order of their keys finds the pairs that agree**, in the order
of the left keys. -/
theorem matching_keyed_eq (hl : left.Regular) (hr : right.Regular) :
    matching
        (keyed ((left.columns.filter right.columns.contains).filterMap left.columns.idxOf?)
          left.rows)
        (keyed ((left.columns.filter right.columns.contains).filterMap right.columns.idxOf?)
          right.rows) =
      pairsThatAgree left right
        ((keyed ((left.columns.filter right.columns.contains).filterMap left.columns.idxOf?)
          left.rows).map Prod.snd) := by
  rw [matching_eq _ _ (sorted_keyed _ _) (sorted_keyed _ _), pairs, pairsThatAgree,
    List.flatMap_map]
  refine List.flatMap_congr fun e he => ?_
  obtain ⟨hmem, hkey⟩ := mem_keyed.mp he
  rw [filter_keyed, List.map_map]
  congr 1
  refine List.filter_congr fun r hmem' => ?_
  rw [hkey, Bool.eq_iff_iff, beq_iff_eq, decide_eq_true_iff, agree_iff_pick hl hr hmem hmem']
  exact eq_comm

end Regular

/-! ## 3. The join -/

/-- **The rows of a join**: the left rows, sorted stably by what they have in the shared columns,
each with every right row that has the same there, in the right table's order; and each span stands
in its column.  The columns are those of both tables, in increasing order. -/
theorem join_pairs_rows_that_agree {left right : Table} (hl : left.Regular) (hr : right.Regular)
    (hshared : ∃ c ∈ left.columns, c ∈ right.columns) :
    ∃ joined sorted, left.join right = .ok joined ∧
      joined.columns.Pairwise (· < ·) ∧
      (∀ c, c ∈ joined.columns ↔ c ∈ left.columns ∨ c ∈ right.columns) ∧
      StablySorted (sharedSpans left right) left.rows sorted ∧
      List.Forall₂ (fun pair row => Places left right joined.columns pair.1 pair.2 row)
        (pairsThatAgree left right sorted) joined.rows := by
  have hsorted := stablySorted_keyed
    ((left.columns.filter right.columns.contains).filterMap left.columns.idxOf?) left.rows
  refine ⟨_, _, join_eq hl.nodup hr.nodup hshared, pairwise_combinedColumns hl.nodup hr.nodup,
    fun c => mem_combinedColumns, pick_eq_sharedSpans left right ▸ hsorted, ?_⟩
  rw [matching_keyed_eq hl hr, List.forall₂_map_right_iff, List.forall₂_same]
  intro pair hpair
  obtain ⟨l, hmem, hpair⟩ := List.mem_flatMap.mp hpair
  obtain ⟨r, hr', rfl⟩ := List.mem_map.mp hpair
  obtain ⟨hmem', hagree⟩ := List.mem_filter.mp hr'
  exact places_combine hl hr (hsorted.mem_iff.mp hmem) hmem' (of_decide_eq_true hagree)

/-- Both left rows of the lesser key come before the one of the greater key, in their order, and
each is paired with both right rows of that key, one of which comes twice. -/
theorem join_pairs_rows_that_agree_repeated :
    let a : Span := ⟨0, 1, 0, by decide⟩
    let b : Span := ⟨1, 2, 0, by decide⟩
    let c : Span := ⟨2, 9, 0, by decide⟩
    let left : Table := ⟨[3, 1], [[c, b], [b, a], [a, a]]⟩
    let right : Table := ⟨[1, 0], [[a, c], [b, a], [a, c]]⟩
    left.join right = .ok ⟨[0, 1, 3],
        [[c, a, b], [c, a, b], [c, a, a], [c, a, a], [a, b, c]]⟩ ∧
      ∃ joined sorted, left.join right = .ok joined ∧
        joined.columns.Pairwise (· < ·) ∧
        (∀ c, c ∈ joined.columns ↔ c ∈ left.columns ∨ c ∈ right.columns) ∧
        StablySorted (sharedSpans left right) left.rows sorted ∧
        List.Forall₂ (fun pair row => Places left right joined.columns pair.1 pair.2 row)
          (pairsThatAgree left right sorted) joined.rows := by
  intro a b c left right
  refine ⟨by cbv, join_pairs_rows_that_agree ⟨by simp [left], by simp [left]⟩
    ⟨by simp [right], by simp [right]⟩ ⟨1, by simp [left], by simp [right]⟩⟩

end Query.Table

end TaggedText
