/-
# The rows of a union

A table that is added to a list goes to the table with its columns, and the rows of both are kept
once, in the order of first appearance.  **A union keeps the rows of each choice of columns so**,
those of the old tables first (`union_keeps_rows_once`), but for one case: a table that comes alone
with its columns becomes a table of the union as it is, with all its repeated rows
(`union_repeats_rows_of_lone_table`).
-/
import TaggedText.Proofs.Query.Table

namespace TaggedText

/-! ## 1. First appearances -/

/-- **The members of a list, each once, in the order of first appearance.** -/
structure FirstAppearances {α : Type} [BEq α] (all kept : List α) : Prop where
  nodup : kept.Nodup
  mem_iff : ∀ a, a ∈ kept ↔ a ∈ all
  ordered : kept.Pairwise fun a b => all.idxOf a < all.idxOf b

section FirstAppearances

variable {α : Type} [BEq α] [LawfulBEq α]

/-- Members that are left out do not change the order of the others. -/
theorem idxOf_lt_of_filter {p : α → Bool} {a b : α} (ha : p a = true) (hb : p b = true) :
    ∀ {l : List α}, (l.filter p).idxOf a < (l.filter p).idxOf b → l.idxOf a < l.idxOf b
  | [], h => by simp at h
  | c :: l, h => by
    by_cases hca : c = a
    · subst hca
      by_cases hcb : c = b
      · simp [hcb] at h
      · simp [hcb]
    · by_cases hcb : c = b
      · subst hcb
        simp [hb] at h
      · have hrest : (l.filter p).idxOf a < (l.filter p).idxOf b := by
          by_cases hc : p c = true
          · simpa [hc, List.idxOf_cons, hca, hcb] using h
          · simpa [hc] using h
        simpa [List.idxOf_cons, hca, hcb] using idxOf_lt_of_filter ha hb hrest

/-- **Erasing repetitions keeps the first appearances.** -/
theorem firstAppearances_eraseDups : ∀ l : List α, FirstAppearances l l.eraseDups
  | [] => ⟨by simp, by simp, by simp⟩
  | a :: rest => by
    have ih := firstAppearances_eraseDups (rest.filter fun b => !b == a)
    have hother : ∀ b ∈ (rest.filter fun b => !b == a).eraseDups, (!b == a) = true ∧ ¬ a = b := by
      intro b hb
      have hfilter := (List.mem_filter.mp (List.mem_eraseDups.mp hb)).2
      exact ⟨hfilter, fun h => by simp [h] at hfilter⟩
    refine ⟨nodup_eraseDups (a :: rest), fun b => List.mem_eraseDups, ?_⟩
    rw [List.eraseDups_cons, List.pairwise_cons]
    constructor
    · intro b hb
      simp [(hother b hb).2]
    · refine ih.ordered.imp_of_mem fun {b c} hb hc hlt => ?_
      obtain ⟨hb, hab⟩ := hother b hb
      obtain ⟨hc, hac⟩ := hother c hc
      have hrest := idxOf_lt_of_filter (p := fun b => !b == a) hb hc hlt
      simpa [List.idxOf_cons, hab, hac] using hrest
termination_by l => l.length
decreasing_by
  have := List.length_filter_le (fun b => !b == a) rest
  simp only [List.length_cons]
  omega

theorem firstAppearances_of_nodup {l : List α} (h : l.Nodup) : FirstAppearances l l := by
  have hself := firstAppearances_eraseDups l
  rwa [eraseDups_of_nodup h] at hself

/-- Repetitions that have been erased before do not matter. -/
theorem eraseDups_eraseDups_append (left right : List α) :
    (left.eraseDups ++ right).eraseDups = (left ++ right).eraseDups := by
  have hremove : right.removeAll left.eraseDups = right.removeAll left := by
    refine List.filter_congr fun a _ => ?_
    simp [List.mem_eraseDups]
  rw [List.eraseDups_append, List.eraseDups_append, hremove,
    eraseDups_of_nodup (nodup_eraseDups left)]

end FirstAppearances

namespace Query.Table

/-! ## 2. Rows over the same columns -/

/-- The rows of the tables with given columns, table by table. -/
def rowsOver (columns : List Nat) (tables : List Table) : List Row :=
  (tables.filter fun t => t.columns = columns).flatMap rows

variable {s : List Nat} {t : Table} {tables new : List Table}

theorem rowsOver_cons_of_eq (h : t.columns = s) :
    rowsOver s (t :: tables) = t.rows ++ rowsOver s tables := by
  simp [rowsOver, h]

theorem rowsOver_cons_of_ne (h : ¬ t.columns = s) :
    rowsOver s (t :: tables) = rowsOver s tables := by
  simp [rowsOver, h]

theorem rowsOver_eq_nil (h : s ∉ tables.map columns) : rowsOver s tables = [] := by
  rw [rowsOver, List.filter_eq_nil_iff.mpr]
  · rfl
  · intro t ht hcolumns
    exact h (List.mem_map.mpr ⟨t, ht, of_decide_eq_true hcolumns⟩)

/-- Without repeated columns, the rows over the columns of a table are its own. -/
theorem rowsOver_of_mem : ∀ {tables : List Table}, (tables.map columns).count t.columns ≤ 1 →
    t ∈ tables → rowsOver t.columns tables = t.rows
  | first :: rest, hcount, ht => by
    by_cases hc : first.columns = t.columns
    · rw [List.map_cons, hc, List.count_cons_self] at hcount
      have hrest : t.columns ∉ rest.map columns := List.count_eq_zero.mp (by omega)
      have hfirst : t = first := by
        rcases List.mem_cons.mp ht with h | h
        · exact h
        · exact absurd (List.mem_map_of_mem h) hrest
      rw [rowsOver_cons_of_eq hc, rowsOver_eq_nil hrest, List.append_nil, hfirst]
    · have ht' : t ∈ rest := (List.mem_cons.mp ht).resolve_left fun h => hc (h ▸ rfl)
      rw [List.map_cons, List.count_cons_of_ne hc] at hcount
      rw [rowsOver_cons_of_ne hc, rowsOver_of_mem hcount ht']

theorem count_columns_le (h : (tables.map columns).Nodup) (s : List Nat) :
    (tables.map columns).count s ≤ 1 :=
  List.nodup_iff_count_le_one.mp h s

/-! ## 3. One table is added -/

theorem rowsOver_addTo_of_ne (h : ¬ t.columns = s) : ∀ tables : List Table,
    rowsOver s (t.addTo tables) = rowsOver s tables
  | [] => rowsOver_cons_of_ne h
  | first :: rest => by
    rw [addTo]
    split
    · next hc =>
      have hfirst : ¬ first.columns = s := fun h' => h (hc ▸ h')
      have hmerged : ¬ Table.columns { first with rows := (first.rows ++ t.rows).eraseDups } = s :=
        hfirst
      rw [rowsOver_cons_of_ne hmerged, rowsOver_cons_of_ne hfirst]
    · by_cases hs : first.columns = s
      · rw [rowsOver_cons_of_eq hs, rowsOver_cons_of_eq hs, rowsOver_addTo_of_ne h rest]
      · rw [rowsOver_cons_of_ne hs, rowsOver_cons_of_ne hs, rowsOver_addTo_of_ne h rest]

/-- **The rows behind those of the table with the same columns**, each kept once. -/
theorem rowsOver_addTo_of_mem : ∀ {tables : List Table}, (tables.map columns).Nodup →
    t.columns ∈ tables.map columns →
    rowsOver t.columns (t.addTo tables) = (rowsOver t.columns tables ++ t.rows).eraseDups
  | first :: rest, hdistinct, hmem => by
    obtain ⟨hnot, hrest⟩ := List.nodup_cons.mp hdistinct
    rw [addTo]
    split
    · next hc =>
      have hnil : rowsOver t.columns rest = [] := rowsOver_eq_nil (hc ▸ hnot)
      have hmerged : Table.columns { first with rows := (first.rows ++ t.rows).eraseDups } =
          t.columns := hc
      rw [rowsOver_cons_of_eq hmerged, rowsOver_cons_of_eq hc, hnil, List.append_nil,
        List.append_nil]
    · next hc =>
      have hmem' : t.columns ∈ rest.map columns :=
        (List.mem_cons.mp hmem).resolve_left fun h => hc h.symm
      rw [rowsOver_cons_of_ne hc, rowsOver_cons_of_ne hc, rowsOver_addTo_of_mem hrest hmem']

/-- A table without a counterpart is added as it is. -/
theorem rowsOver_addTo_of_notMem : ∀ {tables : List Table}, t.columns ∉ tables.map columns →
    rowsOver t.columns (t.addTo tables) = t.rows
  | [], _ => by simp [addTo, rowsOver]
  | first :: rest, hnot => by
    rw [List.map_cons, List.mem_cons, not_or] at hnot
    have hc : ¬ first.columns = t.columns := fun h => hnot.1 h.symm
    rw [addTo, if_neg hc, rowsOver_cons_of_ne hc, rowsOver_addTo_of_notMem hnot.2]

theorem mem_columns_addTo :
    s ∈ (t.addTo tables).map columns ↔ s ∈ tables.map columns ∨ s = t.columns := by
  rw [map_columns_addTo]
  split
  · next h =>
    constructor
    · exact .inl
    · rintro (hs | rfl)
      · exact hs
      · exact h
  · rw [List.mem_append, List.mem_singleton]

/-! ## 4. The union -/

theorem mem_columns_union {new : List Table} : ∀ {tables : List Table},
    s ∈ (union tables new).map columns ↔ s ∈ tables.map columns ∨ s ∈ new.map columns := by
  induction new with
  | nil => simp [union]
  | cons t new ih =>
    intro tables
    rw [union_cons, ih, mem_columns_addTo, List.map_cons, List.mem_cons, or_assoc]

/-- Rows over columns that the first list has already. -/
theorem rowsOver_union_of_mem {new : List Table} : ∀ {tables : List Table},
    (tables.map columns).Nodup → s ∈ tables.map columns →
    rowsOver s (union tables new) =
      if s ∈ new.map columns then (rowsOver s tables ++ rowsOver s new).eraseDups
      else rowsOver s tables := by
  induction new with
  | nil => intro tables _ _; simp [union]
  | cons t new ih =>
    intro tables hdistinct hs
    rw [union_cons, ih (nodup_addTo hdistinct) (mem_columns_addTo.mpr (.inl hs))]
    by_cases hc : t.columns = s
    · subst hc
      have hmem : t.columns ∈ (t :: new).map columns := List.mem_cons_self
      rw [rowsOver_addTo_of_mem hdistinct hs, rowsOver_cons_of_eq rfl, if_pos hmem]
      split
      · rw [eraseDups_eraseDups_append, List.append_assoc]
      · next hnot => rw [rowsOver_eq_nil hnot, List.append_nil]
    · have hne : ¬ s = t.columns := fun h => hc h.symm
      simp only [rowsOver_addTo_of_ne hc, rowsOver_cons_of_ne hc, List.map_cons, List.mem_cons,
        hne, false_or]

/-- Only one table of the second list has these columns, and none of the first one. -/
def Lone (tables new : List Table) (s : List Nat) : Prop :=
  s ∉ tables.map columns ∧ (new.map columns).count s = 1

instance (tables new : List Table) (s : List Nat) : Decidable (Lone tables new s) :=
  inferInstanceAs (Decidable (_ ∧ _))

/-- Rows over columns that only the second list has. -/
theorem rowsOver_union_of_notMem {new : List Table} : ∀ {tables : List Table},
    (tables.map columns).Nodup → s ∉ tables.map columns →
    rowsOver s (union tables new) =
      if Lone tables new s then rowsOver s new else (rowsOver s new).eraseDups := by
  induction new with
  | nil =>
    intro tables _ hs
    have hlone : ¬ Lone tables [] s := by simp [Lone]
    rw [if_neg hlone]
    exact rowsOver_eq_nil hs
  | cons t new ih =>
    intro tables hdistinct hs
    rw [union_cons]
    by_cases hc : t.columns = s
    · subst hc
      rw [rowsOver_union_of_mem (nodup_addTo hdistinct) (mem_columns_addTo.mpr (.inr rfl)),
        rowsOver_addTo_of_notMem hs, rowsOver_cons_of_eq rfl]
      have hlone : Lone tables (t :: new) t.columns ↔ t.columns ∉ new.map columns := by
        rw [Lone, List.map_cons, List.count_cons_self, ← List.count_eq_zero (l := new.map columns)]
        constructor
        · rintro ⟨-, hcount⟩
          omega
        · intro hcount
          exact ⟨hs, by rw [hcount]⟩
      by_cases hnew : t.columns ∈ new.map columns
      · rw [if_pos hnew, if_neg (mt hlone.mp (not_not.mpr hnew))]
      · rw [if_neg hnew, if_pos (hlone.mpr hnew), rowsOver_eq_nil hnew, List.append_nil]
    · have hs' : s ∉ (t.addTo tables).map columns := by
        rw [mem_columns_addTo, not_or]
        exact ⟨hs, fun h => hc h.symm⟩
      have hlone : Lone (t.addTo tables) new s ↔ Lone tables (t :: new) s := by
        rw [Lone, Lone, List.map_cons, List.count_cons_of_ne hc]
        simp only [hs, hs']
      rw [ih (nodup_addTo hdistinct) hs', rowsOver_cons_of_ne hc]
      simp only [hlone]

/-- **The rows of a union over given columns**: those of both lists, each once, but for a lone
table. -/
theorem rowsOver_union (hdistinct : (tables.map columns).Nodup)
    (hrows : ∀ t ∈ tables, t.rows.Nodup) (s : List Nat) :
    rowsOver s (union tables new) =
      if Lone tables new s then rowsOver s new
      else (rowsOver s tables ++ rowsOver s new).eraseDups := by
  by_cases hs : s ∈ tables.map columns
  · have hlone : ¬ Lone tables new s := fun h => h.1 hs
    rw [rowsOver_union_of_mem hdistinct hs, if_neg hlone]
    split
    · rfl
    · next hnew =>
      obtain ⟨t, ht, rfl⟩ := List.mem_map.mp hs
      rw [rowsOver_eq_nil hnew, List.append_nil,
        rowsOver_of_mem (count_columns_le hdistinct _) ht, eraseDups_of_nodup (hrows t ht)]
  · rw [rowsOver_union_of_notMem hdistinct hs, rowsOver_eq_nil hs, List.nil_append]

/-- **A union keeps the rows over the same columns once, in the order of first appearance, those of
the first list first**, exactly when no lone table of the second list has a repeated row.  Its
tables are over different columns, those of both lists. -/
theorem union_keeps_rows_once (hdistinct : (tables.map columns).Nodup)
    (hrows : ∀ t ∈ tables, t.rows.Nodup) :
    ((union tables new).map columns).Nodup ∧
    (∀ s, s ∈ (union tables new).map columns ↔
      s ∈ tables.map columns ∨ s ∈ new.map columns) ∧
    ((∀ t ∈ union tables new, FirstAppearances
        (rowsOver t.columns tables ++ rowsOver t.columns new) t.rows) ↔
      ∀ t ∈ new, Lone tables new t.columns → t.rows.Nodup) := by
  have hunion : ∀ t ∈ union tables new, t.rows =
      if Lone tables new t.columns then rowsOver t.columns new
      else (rowsOver t.columns tables ++ rowsOver t.columns new).eraseDups := by
    intro t ht
    rw [← rowsOver_union hdistinct hrows,
      rowsOver_of_mem (count_columns_le (nodup_union hdistinct) _) ht]
  refine ⟨nodup_union hdistinct, fun s => mem_columns_union, ?_, ?_⟩
  · intro hfirst t ht hlone
    have hcolumns : t.columns ∈ (union tables new).map columns :=
      mem_columns_union.mpr (.inr (List.mem_map_of_mem ht))
    obtain ⟨t', ht', hc⟩ := List.mem_map.mp hcolumns
    have hsame : t'.rows = t.rows := by
      rw [hunion t' ht', hc, if_pos hlone, rowsOver_of_mem hlone.2.le ht]
    exact hsame ▸ (hfirst t' ht').nodup
  · intro hnew t ht
    rw [hunion t ht]
    split
    · next hlone =>
      have hmem : t.columns ∈ new.map columns :=
        List.count_pos_iff.mp (by rw [hlone.2]; exact Nat.one_pos)
      obtain ⟨t', ht', hc⟩ := List.mem_map.mp hmem
      rw [← hc] at hlone ⊢
      rw [rowsOver_eq_nil hlone.1, List.nil_append, rowsOver_of_mem hlone.2.le ht']
      exact firstAppearances_of_nodup (hnew t' ht' hlone)
    · exact firstAppearances_eraseDups _

/-- Repeated rows come to a table that the first list has, and to two tables that only the second
list has; the lone table has none. -/
theorem union_keeps_rows_once_met :
    let a : Span := ⟨0, 1, 0, by decide⟩
    let b : Span := ⟨1, 2, 0, by decide⟩
    let tables : List Table := [⟨[0], [[b]]⟩, ⟨[0, 1], []⟩]
    let new : List Table := [⟨[1], [[a], [a]]⟩, ⟨[0], [[a], [b], [a]]⟩, ⟨[1], [[b], [a]]⟩,
      ⟨[2], [[b], [a]]⟩]
    (tables.map columns).Nodup ∧ (∀ t ∈ tables, t.rows.Nodup) ∧
    union tables new = [⟨[0], [[b], [a]]⟩, ⟨[0, 1], []⟩, ⟨[1], [[a], [b]]⟩, ⟨[2], [[b], [a]]⟩] ∧
    ((union tables new).map columns).Nodup ∧
    (∀ s, s ∈ (union tables new).map columns ↔
      s ∈ tables.map columns ∨ s ∈ new.map columns) ∧
    ((∀ t ∈ union tables new, FirstAppearances
        (rowsOver t.columns tables ++ rowsOver t.columns new) t.rows) ↔
      ∀ t ∈ new, Lone tables new t.columns → t.rows.Nodup) := by
  intro a b tables new
  have hdistinct : (tables.map columns).Nodup := by decide
  have hrows : ∀ t ∈ tables, t.rows.Nodup := by decide
  exact ⟨hdistinct, hrows, by cbv, union_keeps_rows_once hdistinct hrows⟩

/-- **A lone table becomes a table of the union with its repeated rows.** -/
theorem union_repeats_rows_of_lone_table :
    let row : Row := [⟨0, 1, 0, by decide⟩]
    let lone : Table := ⟨[0], [row, row]⟩
    Lone [] [lone] lone.columns ∧ union [] [lone] = [lone] ∧ ¬ lone.rows.Nodup ∧
      ¬ FirstAppearances (rowsOver lone.columns [] ++ rowsOver lone.columns [lone]) lone.rows := by
  intro row lone
  have hrepeated : ¬ lone.rows.Nodup := by simp [lone]
  exact ⟨by decide, rfl, hrepeated, fun h => hrepeated h.nodup⟩

end Query.Table

end TaggedText
