/-
# Rows as choices

A choice takes one span for every column.  A row over some columns is what a choice takes there, so
facts about places in rows become facts about columns: picking places is taking fewer columns
(`pick_map`), putting two rows together is taking the columns of both (`combine_map`), and laying
out an extended row is the same (`Columns.span?_source`).

Two rows come from one choice exactly when they agree on the columns they share (`map_glue`).
-/
import TaggedText.Query.Table
import TaggedText.Selection
import Mathlib.Data.List.Sort

namespace TaggedText

/-! ## 1. Lists without repetitions -/

theorem nodup_eraseDups {α : Type} [BEq α] [LawfulBEq α] (l : List α) : l.eraseDups.Nodup :=
  match l with
  | [] => by simp
  | a :: rest => by
    rw [List.eraseDups_cons, List.nodup_cons]
    exact ⟨by simp, nodup_eraseDups (rest.filter fun b => !b == a)⟩
termination_by l.length
decreasing_by
  have := List.length_filter_le (fun b => !b == a) rest
  simp only [List.length_cons]
  omega

theorem eraseDups_sublist {α : Type} [BEq α] [LawfulBEq α] (l : List α) :
    l.eraseDups.Sublist l :=
  match l with
  | [] => by simp
  | a :: rest => by
    rw [List.eraseDups_cons]
    exact ((eraseDups_sublist (rest.filter fun b => !b == a)).trans List.filter_sublist).cons_cons a
termination_by l.length
decreasing_by
  have := List.length_filter_le (fun b => !b == a) rest
  simp only [List.length_cons]
  omega

theorem eraseDups_of_nodup {α : Type} [BEq α] [LawfulBEq α] : ∀ {l : List α}, l.Nodup →
    l.eraseDups = l
  | [], _ => rfl
  | a :: rest, h => by
    obtain ⟨ha, hrest⟩ := List.nodup_cons.mp h
    have hfilter : (rest.filter fun b => !b == a) = rest :=
      List.filter_eq_self.mpr fun b hb => by
        have : b ≠ a := fun hba => ha (hba ▸ hb)
        simpa using this
    rw [List.eraseDups_cons, hfilter, eraseDups_of_nodup hrest]

theorem pairwise_lt_mergeSort {l : List Nat} (h : l.Nodup) : l.mergeSort.Pairwise (· < ·) := by
  have hle : l.mergeSort.Pairwise (· ≤ ·) := by
    simpa using List.pairwise_mergeSort' (· ≤ ·) l
  have hne : l.mergeSort.Pairwise (· ≠ ·) := (List.mergeSort_perm l _).nodup_iff.mpr h
  exact (hle.and hne).imp fun ⟨h₁, h₂⟩ => Nat.lt_of_le_of_ne h₁ h₂

theorem nodup_of_pairwise_lt {l : List Nat} (h : l.Pairwise (· < ·)) : l.Nodup :=
  h.imp Nat.ne_of_lt

/-- Increasing lists with the same members are the same. -/
theorem eq_of_pairwise_lt {l l' : List Nat} (h : l.Pairwise (· < ·)) (h' : l'.Pairwise (· < ·))
    (hmem : ∀ c, c ∈ l ↔ c ∈ l') : l = l' :=
  h.eq_of_mem_iff h' hmem

namespace Query

/-! ## 2. Choices -/

/-- One span for every column. -/
abbrev Choice := Nat → Span

/-- Two choices in one: the first is followed on some columns, the second elsewhere. -/
def Choice.glue (columns : List Nat) (a b : Choice) : Choice :=
  fun c => if c ∈ columns then a c else b c

theorem Choice.map_glue_left (left : List Nat) (a b : Choice) :
    left.map (Choice.glue left a b) = left.map a :=
  List.map_congr_left fun c hc => by simp [Choice.glue, hc]

/-- **Two rows come from one choice** when they agree on the columns they share. -/
theorem Choice.map_glue_right {left right : List Nat} {a b : Choice}
    (h : ∀ c ∈ left, c ∈ right → a c = b c) :
    right.map (Choice.glue left a b) = right.map b :=
  List.map_congr_left fun c hc => by
    by_cases hl : c ∈ left
    · simp [Choice.glue, hl, h c hl hc]
    · simp [Choice.glue, hl]

/-- Every row over different columns is what some choice takes there. -/
theorem exists_choice {columns : List Nat} (h : columns.Nodup) {row : Row}
    (hlen : row.length = columns.length) : ∃ a : Choice, columns.map a = row := by
  refine ⟨fun c => row[columns.idxOf c]?.getD ⟨0, 0, 0, Nat.le_refl 0⟩, ?_⟩
  refine List.ext_getElem (by simpa using hlen.symm) fun i hi hi' => ?_
  simp [List.getElem_map, h.idxOf_getElem, List.getElem?_eq_getElem hi']

theorem map_eq_map_iff {columns : List Nat} {a b : Choice} :
    columns.map a = columns.map b ↔ ∀ c ∈ columns, a c = b c :=
  List.map_inj_left

/-- The place of a column in a row. -/
theorem getElem?_map_idxOf {columns : List Nat} (a : Choice) {c : Nat} (hc : c ∈ columns) :
    (columns.map a)[columns.idxOf c]? = some (a c) := by
  rw [List.getElem?_map, List.getElem?_idxOf hc, Option.map_some]

theorem getElem?_map_of_idxOf? {columns : List Nat} (a : Choice) {c i : Nat}
    (h : columns.idxOf? c = some i) : (columns.map a)[i]? = some (a c) := by
  obtain ⟨hi, rfl, -⟩ := List.idxOf?_eq_some_iff.mp h
  rw [List.getElem?_map, List.getElem?_eq_getElem hi, Option.map_some]

theorem filterMap_eq_map {columns : List Nat} {f : Nat → Option Span} {a : Choice}
    (h : ∀ c ∈ columns, f c = some (a c)) : columns.filterMap f = columns.map a := by
  rw [List.filterMap_congr h]
  exact congrFun List.filterMap_eq_map columns

/-! ## 3. Fewer columns -/

/-- **Picking the places of some columns takes these columns.** -/
theorem Table.pick_map (a : Choice) {columns : List Nat} : ∀ (wanted : List Nat),
    Table.pick (wanted.filterMap columns.idxOf?) (columns.map a) =
      (wanted.filter columns.contains).map a
  | [] => rfl
  | c :: rest => by
    have ih := @Table.pick_map a columns rest
    cases hc : columns.idxOf? c with
    | none =>
      have hnot : c ∉ columns := List.idxOf?_eq_none_iff.mp hc
      simp [hc, hnot, ih]
    | some i =>
      have hmem : c ∈ columns := List.isSome_idxOf?.mp (by simp [hc])
      have hspan := getElem?_map_of_idxOf? a hc
      simp only [Table.pick] at ih ⊢
      simp only [List.filterMap_cons, hc, hspan, ih, List.filter_cons,
        List.contains_iff_mem, hmem, if_true, List.map_cons]

/-- The places of the wanted columns of a table. -/
def Table.wantedPlaces (wanted : Nat → Bool) (columns : List Nat) : List Nat :=
  (List.range columns.length).filter fun i => columns[i]?.any wanted

theorem Table.wantedPlaces_cons (wanted : Nat → Bool) (c : Nat) (columns : List Nat) :
    Table.wantedPlaces wanted (c :: columns) =
      if wanted c then 0 :: (Table.wantedPlaces wanted columns).map (· + 1)
      else (Table.wantedPlaces wanted columns).map (· + 1) := by
  simp only [Table.wantedPlaces, List.length_cons, List.range_succ_eq_map, List.filter_cons,
    List.getElem?_cons_zero, Option.any_some, List.filter_map]
  rfl

theorem Table.length_wantedPlaces (wanted : Nat → Bool) : ∀ columns : List Nat,
    (Table.wantedPlaces wanted columns).length = (columns.filter wanted).length
  | [] => rfl
  | c :: columns => by
    have ih := Table.length_wantedPlaces wanted columns
    rw [Table.wantedPlaces_cons]
    cases hc : wanted c <;> simp [hc, ih]

/-- **Picking the wanted places takes the wanted columns**, in the order of the row. -/
theorem Table.filterMap_wantedPlaces {α : Type} (wanted : Nat → Bool) (f : Nat → α) :
    ∀ columns : List Nat,
      ((Table.wantedPlaces wanted columns).filterMap fun i => (columns.map f)[i]?) =
        (columns.filter wanted).map f
  | [] => rfl
  | c :: columns => by
    have ih := Table.filterMap_wantedPlaces wanted f columns
    simp only [List.getElem?_map] at ih
    rw [Table.wantedPlaces_cons]
    cases hc : wanted c <;> simp [hc, List.filterMap_map, ih]

/-! ## 4. The columns of two rows -/

theorem Table.mem_combinedColumns {left right : List Nat} {c : Nat} :
    c ∈ Table.combinedColumns left right ↔ c ∈ left ∨ c ∈ right := by
  by_cases hc : c ∈ left <;> simp [Table.combinedColumns, hc]

theorem nodup_append_missing {left right : List Nat} (hl : left.Nodup) (hr : right.Nodup) :
    (left ++ right.filter fun c => !left.contains c).Nodup := by
  refine List.nodup_append.mpr ⟨hl, hr.filter _, fun c hc d hd hcd => ?_⟩
  have hnot : d ∉ left := by simpa using (List.mem_filter.mp hd).2
  exact hnot (hcd ▸ hc)

/-- **The columns of both are in increasing order.** -/
theorem Table.pairwise_combinedColumns {left right : List Nat} (hl : left.Nodup)
    (hr : right.Nodup) : (Table.combinedColumns left right).Pairwise (· < ·) :=
  pairwise_lt_mergeSort (nodup_append_missing hl hr)

/-- **A row put together out of two takes the columns of both.** -/
theorem Table.combine_map (left right : List Nat) (a : Choice) :
    Table.combine (Table.sides left right) (left.map a) (right.map a) =
      (Table.combinedColumns left right).map a := by
  rw [Table.combine, Table.sides, List.filterMap_map]
  refine filterMap_eq_map fun c hc => ?_
  simp only [Function.comp_apply]
  cases hl : left.idxOf? c with
  | some i => exact getElem?_map_of_idxOf? a hl
  | none =>
    have hr : c ∈ right :=
      (Table.mem_combinedColumns.mp hc).resolve_left (List.idxOf?_eq_none_iff.mp hl)
    exact getElem?_map_idxOf a hr

end Query

namespace Selection

open Query

/-- **The source of a column gives its span**, from the existing row or from the added ones. -/
theorem Columns.span?_source (c : Columns) (a : Choice) {column : Nat}
    (h : column ∈ c.rows ∨ column ∈ c.added) :
    Source.span? (c.rows.map a) (c.added.map a) (c.source column) = some (a column) := by
  rw [Columns.source]
  cases hr : c.rows.idxOf? column with
  | some i => exact getElem?_map_of_idxOf? a hr
  | none => exact getElem?_map_idxOf a (h.resolve_left (List.idxOf?_eq_none_iff.mp hr))

theorem Columns.filterMap_span?_source (c : Columns) (a : Choice) {columns : List Nat}
    (h : ∀ column ∈ columns, column ∈ c.rows ∨ column ∈ c.added) :
    (columns.map c.source).filterMap (Source.span? (c.rows.map a) (c.added.map a)) =
      columns.map a := by
  rw [List.filterMap_map]
  exact filterMap_eq_map fun column hc => c.span?_source a (h column hc)

end Selection

end TaggedText
