/-
# What tables admit

A table admits a choice when the choice, cut down to the table's columns, is one of its rows; a list
of tables admits what one of them admits.  Read this way, **joining is "and"** (`both_spec`,
`joinAll_spec`), **a union is "or"** (`anyAdmits_union`), and leaving columns out forgets what was
taken there (`admits_project`).  For tables of any ordered columns the first two come together in
`joinAll_is_and_union_is_or`.

`Table.Over` is what the tables of a plan have in common: columns in increasing order, at least one,
and in every row one allowed span for each of them.
-/
import TaggedText.Proofs.Query.Matching
import Mathlib.Data.List.Forall2
import Mathlib.Data.List.Permutation

namespace TaggedText.Query

namespace Table

/-! ## 1. Tables as conditions -/

/-- The choice, cut down to the columns of the table, is one of its rows. -/
def Admits (t : Table) (a : Choice) : Prop := t.columns.map a ∈ t.rows

/-- One of the tables admits the choice. -/
def AnyAdmits (tables : List Table) (a : Choice) : Prop := ∃ t ∈ tables, t.Admits a

/-- No column comes twice, and every row has one span for each column. -/
structure Regular (t : Table) : Prop where
  nodup : t.columns.Nodup
  length : ∀ row ∈ t.rows, row.length = t.columns.length

/-- The rows of a regular table are what the admitted choices take. -/
theorem Regular.exists_admits {t : Table} (h : t.Regular) {row : Row} (hr : row ∈ t.rows) :
    ∃ a, t.columns.map a = row ∧ t.Admits a := by
  obtain ⟨a, rfl⟩ := exists_choice h.nodup (h.length row hr)
  exact ⟨a, rfl, hr⟩

/-- A table reads a choice at its own columns only. -/
theorem admits_congr {t : Table} {a b : Choice} (h : ∀ c ∈ t.columns, a c = b c) :
    t.Admits a ↔ t.Admits b := by
  rw [Admits, Admits, map_eq_map_iff.mpr h]

@[simp] theorem anyAdmits_nil (a : Choice) : ¬ AnyAdmits [] a := by simp [AnyAdmits]

theorem anyAdmits_cons {t : Table} {tables : List Table} {a : Choice} :
    AnyAdmits (t :: tables) a ↔ t.Admits a ∨ AnyAdmits tables a := by
  simp [AnyAdmits]

@[simp] theorem anyAdmits_singleton {t : Table} {a : Choice} : AnyAdmits [t] a ↔ t.Admits a := by
  simp [AnyAdmits]

/-! ## 2. One table -/

theorem mem_rows_dedup {t : Table} {row : Row} : row ∈ t.dedup.rows ↔ row ∈ t.rows :=
  List.mem_eraseDups

@[simp] theorem admits_dedup {t : Table} {a : Choice} : t.dedup.Admits a ↔ t.Admits a :=
  mem_rows_dedup

/-- The columns that a projection keeps, in the table's own order. -/
theorem columns_project (t : Table) (wanted : List Nat) :
    (t.project wanted).columns = t.columns.filter wanted.contains := by
  have hlen := length_wantedPlaces wanted.contains t.columns
  have hcolumns := filterMap_wantedPlaces wanted.contains id t.columns
  simp only [List.map_id] at hcolumns
  simp only [wantedPlaces] at hlen hcolumns
  simp only [project]
  split
  · next h => exact (List.filter_eq_self.mpr (List.length_filter_eq_length_iff.mp (hlen ▸ h))).symm
  · exact hcolumns

/-- The rows that a projection keeps. -/
theorem mem_rows_project {t : Table} (h : t.Regular) {wanted : List Nat} {row : Row} :
    row ∈ (t.project wanted).rows ↔
      ∃ a, t.Admits a ∧ (t.project wanted).columns.map a = row := by
  rw [columns_project]
  have hlen := length_wantedPlaces wanted.contains t.columns
  have hpick := fun a : Choice => filterMap_wantedPlaces wanted.contains a t.columns
  simp only [wantedPlaces] at hlen hpick
  simp only [project]
  split
  · next hall =>
    rw [List.filter_eq_self.mpr (List.length_filter_eq_length_iff.mp (hlen ▸ hall))]
    constructor
    · intro hr
      obtain ⟨a, ha, hadm⟩ := h.exists_admits hr
      exact ⟨a, hadm, ha⟩
    · rintro ⟨a, hadm, rfl⟩
      exact hadm
  · simp only [List.mem_eraseDups, List.mem_map]
    constructor
    · rintro ⟨whole, hr, rfl⟩
      obtain ⟨a, rfl, hadm⟩ := h.exists_admits hr
      exact ⟨a, hadm, (hpick a).symm⟩
    · rintro ⟨a, hadm, rfl⟩
      exact ⟨_, hadm, hpick a⟩

/-- **A projection forgets what was taken elsewhere.** -/
theorem admits_project {t : Table} (h : t.Regular) {wanted : List Nat} {a : Choice} :
    (t.project wanted).Admits a ↔
      ∃ b, t.Admits b ∧ ∀ c ∈ t.columns, c ∈ wanted → b c = a c := by
  rw [Admits, mem_rows_project h]
  refine exists_congr fun b => and_congr_right fun _ => ?_
  rw [map_eq_map_iff, columns_project]
  simp

theorem Regular.project {t : Table} (h : t.Regular) (wanted : List Nat) :
    (t.project wanted).Regular where
  nodup := by
    rw [columns_project]
    exact h.nodup.filter _
  length row hr := by
    obtain ⟨a, -, rfl⟩ := (mem_rows_project h).mp hr
    exact List.length_map _

/-! ## 3. Two tables -/

/-- What a table says that holds what two tables hold together. -/
structure Conjoins (left right joined : Table) : Prop where
  columns : joined.columns = combinedColumns left.columns right.columns
  regular : joined.Regular
  admits : ∀ a, joined.Admits a ↔ left.Admits a ∧ right.Admits a

/-- Rows put together out of the rows of two tables that agree on the columns they share. -/
theorem conjoins_of_rows {left right : Table} (hl : left.Regular) (hr : right.Regular)
    {rows : List Row}
    (h : ∀ row, row ∈ rows ↔ ∃ a b : Choice, left.Admits a ∧ right.Admits b ∧
      (∀ c ∈ left.columns, c ∈ right.columns → a c = b c) ∧
      combine (sides left.columns right.columns) (left.columns.map a) (right.columns.map b) =
        row) :
    Conjoins left right ⟨combinedColumns left.columns right.columns, rows⟩ := by
  -- such a row is what the two choices in one take
  have hrow : ∀ row ∈ rows, ∃ d, left.Admits d ∧ right.Admits d ∧
      (combinedColumns left.columns right.columns).map d = row := by
    intro row hmem
    obtain ⟨a, b, ha, hb, hshared, rfl⟩ := (h row).mp hmem
    have hleft := Choice.map_glue_left left.columns a b
    have hright := Choice.map_glue_right hshared
    refine ⟨Choice.glue left.columns a b, ?_, ?_, ?_⟩
    · rwa [Admits, hleft]
    · rwa [Admits, hright]
    · rw [← combine_map, hleft, hright]
  refine ⟨rfl, ⟨nodup_of_pairwise_lt (pairwise_combinedColumns hl.nodup hr.nodup), ?_⟩, ?_⟩
  · intro row hmem
    obtain ⟨d, -, -, rfl⟩ := hrow row hmem
    exact List.length_map _
  · intro a
    constructor
    · intro hadm
      obtain ⟨d, hleft, hright, hd⟩ := hrow _ hadm
      have hagree := map_eq_map_iff.mp hd
      exact ⟨(admits_congr fun c hc => hagree c (mem_combinedColumns.mpr (.inl hc))).mp hleft,
        (admits_congr fun c hc => hagree c (mem_combinedColumns.mpr (.inr hc))).mp hright⟩
    · rintro ⟨hleft, hright⟩
      exact (h _).mpr ⟨a, a, hleft, hright, fun _ _ _ => rfl, combine_map _ _ a⟩

/-- **Every pairing of the rows of two tables without a common column.** -/
theorem cross_spec {left right : Table} (hl : left.Regular) (hr : right.Regular)
    (hdisjoint : ∀ c ∈ left.columns, c ∉ right.columns) :
    ∃ crossed, left.cross right = .ok crossed ∧ Conjoins left right crossed := by
  have hany : left.columns.any right.columns.contains = false := by
    simpa [List.any_eq_false] using hdisjoint
  refine ⟨_, by rw [cross, if_neg (by simp [hany])], conjoins_of_rows hl hr fun row => ?_⟩
  simp only [List.mem_flatMap, List.mem_map]
  constructor
  · rintro ⟨x, hx, y, hy, rfl⟩
    obtain ⟨a, rfl, ha⟩ := hl.exists_admits hx
    obtain ⟨b, rfl, hb⟩ := hr.exists_admits hy
    exact ⟨a, b, ha, hb, fun c hc hc' => absurd hc' (hdisjoint c hc), rfl⟩
  · rintro ⟨a, b, ha, hb, -, rfl⟩
    exact ⟨_, ha, _, hb, rfl⟩

/-- **The keys of two rows are the shared columns** of the choices they come from. -/
theorem pick_shared_eq_iff (left right : List Nat) (a b : Choice) :
    pick ((left.filter right.contains).filterMap left.idxOf?) (left.map a) =
        pick ((left.filter right.contains).filterMap right.idxOf?) (right.map b) ↔
      ∀ c ∈ left, c ∈ right → a c = b c := by
  rw [pick_map, pick_map, List.filter_filter, List.filter_filter]
  have hleft : (left.filter fun c => left.contains c && right.contains c) =
      left.filter right.contains :=
    List.filter_congr fun c hc => by simp [hc]
  simp only [hleft, Bool.and_self, map_eq_map_iff]
  simp

/-- What the join of two tables with a common column computes. -/
theorem join_eq {left right : Table} (hl : left.columns.Nodup) (hr : right.columns.Nodup)
    (hshared : ∃ c ∈ left.columns, c ∈ right.columns) :
    left.join right = .ok
      { columns := combinedColumns left.columns right.columns
        rows := (matching
            (keyed ((left.columns.filter right.columns.contains).filterMap left.columns.idxOf?)
              left.rows)
            (keyed ((left.columns.filter right.columns.contains).filterMap right.columns.idxOf?)
              right.rows)).map
          fun (l, r) => combine (sides left.columns right.columns) l r } := by
  obtain ⟨c, hcl, hcr⟩ := hshared
  have hne : (left.columns.filter right.columns.contains).isEmpty = false := by
    simpa using ⟨c, hcl, hcr⟩
  have htwice : ¬ (left.columns.eraseDups ≠ left.columns ∨
      right.columns.eraseDups ≠ right.columns) := by
    simp [eraseDups_of_nodup hl, eraseDups_of_nodup hr]
  rw [join, if_neg (by simp [hne]), if_neg htwice]

/-- **The join of two tables with a common column.** -/
theorem join_spec {left right : Table} (hl : left.Regular) (hr : right.Regular)
    (hshared : ∃ c ∈ left.columns, c ∈ right.columns) :
    ∃ joined, left.join right = .ok joined ∧ Conjoins left right joined := by
  refine ⟨_, join_eq hl.nodup hr.nodup hshared, conjoins_of_rows hl hr fun row => ?_⟩
  have hkeys := pick_shared_eq_iff left.columns right.columns
  simp only [List.mem_map, Prod.exists, mem_matching_keyed]
  constructor
  · rintro ⟨x, y, ⟨hx, hy, hkey⟩, rfl⟩
    obtain ⟨a, rfl, ha⟩ := hl.exists_admits hx
    obtain ⟨b, rfl, hb⟩ := hr.exists_admits hy
    exact ⟨a, b, ha, hb, (hkeys a b).mp hkey, rfl⟩
  · rintro ⟨a, b, ha, hb, hagree, rfl⟩
    exact ⟨_, _, ⟨ha, hb, (hkeys a b).mpr hagree⟩, rfl⟩

/-- **Two tables together admit what each of them admits**, and putting them together does not
fail. -/
theorem both_spec {left right : Table} (hl : left.Regular) (hr : right.Regular) :
    ∃ joined, left.both right = .ok joined ∧ Conjoins left right joined := by
  rw [both]
  split
  · next h =>
    exact join_spec hl hr (by simpa using h)
  · next h =>
    exact cross_spec hl hr (by simpa using h)

/-! ## 4. Tables in increasing order of their columns

The tables of a plan have their columns in increasing order.  Which columns may occur, and which
spans may stand in them, is left open here. -/

/-- The columns are in increasing order, at least one, and known; every row has one allowed span for
each of them. -/
structure Over (known : Nat → Prop) (allowed : Nat → Span → Prop) (t : Table) : Prop where
  nonempty : t.columns ≠ []
  increasing : t.columns.Pairwise (· < ·)
  known : ∀ c ∈ t.columns, known c
  rows : ∀ row ∈ t.rows, List.Forall₂ allowed t.columns row

section Over

variable {known : Nat → Prop} {allowed : Nat → Span → Prop}

theorem Over.regular {t : Table} (h : t.Over known allowed) : t.Regular where
  nodup := nodup_of_pairwise_lt h.increasing
  length row hr := (h.rows row hr).length_eq.symm

theorem forall₂_map_iff {columns : List Nat} {a : Choice} :
    List.Forall₂ allowed columns (columns.map a) ↔ ∀ c ∈ columns, allowed c (a c) := by
  induction columns with
  | nil => simp
  | cons c columns ih => simp [ih]

/-- What a table admits is allowed in its columns. -/
theorem Over.allowed_of_admits {t : Table} (h : t.Over known allowed) {a : Choice}
    (ha : t.Admits a) : ∀ c ∈ t.columns, allowed c (a c) :=
  forall₂_map_iff.mp (h.rows _ ha)

/-- A regular table that admits nothing but allowed spans. -/
theorem Over.of_regular {t : Table} (hne : t.columns ≠ []) (hlt : t.columns.Pairwise (· < ·))
    (hknown : ∀ c ∈ t.columns, known c) (hreg : t.Regular)
    (hadm : ∀ a, t.Admits a → ∀ c ∈ t.columns, allowed c (a c)) : t.Over known allowed where
  nonempty := hne
  increasing := hlt
  known := hknown
  rows row hr := by
    obtain ⟨a, rfl, ha⟩ := hreg.exists_admits hr
    exact forall₂_map_iff.mpr (hadm a ha)

theorem Over.dedup {t : Table} (h : t.Over known allowed) : t.dedup.Over known allowed :=
  ⟨h.nonempty, h.increasing, h.known, fun row hr => h.rows row (mem_rows_dedup.mp hr)⟩

/-- Rows of a table with the same columns may be added. -/
theorem Over.append {t t' : Table} (h : t.Over known allowed) (h' : t'.Over known allowed)
    (hcolumns : t.columns = t'.columns) :
    Over known allowed ⟨t.columns, (t.rows ++ t'.rows).eraseDups⟩ where
  nonempty := h.nonempty
  increasing := h.increasing
  known := h.known
  rows row hr := by
    rcases List.mem_append.mp (List.mem_eraseDups.mp hr) with hr | hr
    · exact h.rows row hr
    · exact hcolumns ▸ h'.rows row hr

/-- **What holds what two tables hold together is over the columns of both.** -/
theorem Conjoins.isOver {left right joined : Table} (h : Conjoins left right joined)
    (hl : left.Over known allowed) (hr : right.Over known allowed) :
    joined.Over known allowed := by
  have hmem : ∀ c, c ∈ joined.columns ↔ c ∈ left.columns ∨ c ∈ right.columns := fun c => by
    rw [h.columns, mem_combinedColumns]
  refine .of_regular ?_ ?_ ?_ h.regular ?_
  · obtain ⟨c, hc⟩ := List.exists_mem_of_ne_nil _ hl.nonempty
    exact List.ne_nil_of_mem ((hmem c).mpr (.inl hc))
  · rw [h.columns]
    exact pairwise_combinedColumns hl.regular.nodup hr.regular.nodup
  · intro c hc
    rcases (hmem c).mp hc with hc | hc
    · exact hl.known c hc
    · exact hr.known c hc
  · intro a ha c hc
    obtain ⟨hleft, hright⟩ := (h.admits a).mp ha
    rcases (hmem c).mp hc with hc | hc
    · exact hl.allowed_of_admits hleft c hc
    · exact hr.allowed_of_admits hright c hc

end Over

/-! ## 5. Lists of tables -/

/-- The tables of a list are over known columns, no two of them over the same ones. -/
structure Proper (known : Nat → Prop) (allowed : Nat → Span → Prop) (tables : List Table) :
    Prop where
  isOver : ∀ t ∈ tables, t.Over known allowed
  distinct : (tables.map columns).Nodup

section Proper

variable {known : Nat → Prop} {allowed : Nat → Span → Prop}

theorem Proper.nil : Proper known allowed [] := ⟨by simp, by simp⟩

theorem Proper.singleton {t : Table} (h : t.Over known allowed) : Proper known allowed [t] :=
  ⟨by simpa using h, by simp⟩

/-- A table is added to the one with its columns, or becomes the last one. -/
theorem map_columns_addTo (t : Table) : ∀ tables : List Table,
    (t.addTo tables).map columns =
      if t.columns ∈ tables.map columns then tables.map columns
      else tables.map columns ++ [t.columns]
  | [] => rfl
  | first :: rest => by
    rw [addTo]
    by_cases hc : first.columns = t.columns
    · simp [hc]
    · rw [if_neg hc, List.map_cons, map_columns_addTo t rest]
      have hc' : ¬ t.columns = first.columns := fun h => hc h.symm
      by_cases hr : t.columns ∈ rest.map columns
      · simp [hr]
      · simp [hr, hc']

theorem columns_of_mem_addTo {t t' : Table} {tables : List Table} (h : t' ∈ t.addTo tables) :
    t'.columns = t.columns ∨ ∃ first ∈ tables, first.columns = t'.columns := by
  have hmem : t'.columns ∈ (t.addTo tables).map columns := List.mem_map_of_mem h
  rw [map_columns_addTo] at hmem
  split at hmem
  · exact .inr (List.mem_map.mp hmem)
  · rcases List.mem_append.mp hmem with hmem | hmem
    · exact .inr (List.mem_map.mp hmem)
    · exact .inl (List.mem_singleton.mp hmem)

theorem nodup_addTo {t : Table} {tables : List Table} (h : (tables.map columns).Nodup) :
    ((t.addTo tables).map columns).Nodup := by
  rw [map_columns_addTo]
  split
  · exact h
  · next hnot =>
    exact List.nodup_append.mpr ⟨h, List.nodup_singleton _, fun c hc d hd hcd =>
      hnot (by rw [← List.mem_singleton.mp hd, ← hcd]; exact hc)⟩

theorem over_addTo {t : Table} (ht : t.Over known allowed) : ∀ {tables : List Table},
    (∀ t' ∈ tables, t'.Over known allowed) → ∀ t' ∈ t.addTo tables, t'.Over known allowed
  | [], _ => by simpa [addTo] using ht
  | first :: rest, h => by
    obtain ⟨hfirst, hrest⟩ := List.forall_mem_cons.mp h
    rw [addTo]
    split
    · next hc => exact List.forall_mem_cons.mpr ⟨hfirst.append ht hc, hrest⟩
    · exact List.forall_mem_cons.mpr ⟨hfirst, over_addTo ht hrest⟩

theorem Proper.addTo {t : Table} {tables : List Table} (h : Proper known allowed tables)
    (ht : t.Over known allowed) : Proper known allowed (t.addTo tables) :=
  ⟨over_addTo ht h.isOver, nodup_addTo h.distinct⟩

theorem anyAdmits_addTo {t : Table} {a : Choice} : ∀ {tables : List Table},
    AnyAdmits (t.addTo tables) a ↔ AnyAdmits tables a ∨ t.Admits a
  | [] => by simp [addTo]
  | first :: rest => by
    rw [addTo]
    split
    · next hc =>
      simp only [anyAdmits_cons, Admits, List.mem_eraseDups, List.mem_append, hc]
      tauto
    · rw [anyAdmits_cons, anyAdmits_addTo, anyAdmits_cons, or_assoc]

theorem union_cons (tables : List Table) (t : Table) (new : List Table) :
    union tables (t :: new) = union (t.addTo tables) new := rfl

/-- **A union admits what one of the two lists admits.** -/
theorem anyAdmits_union {new : List Table} {a : Choice} : ∀ {tables : List Table},
    AnyAdmits (union tables new) a ↔ AnyAdmits tables a ∨ AnyAdmits new a := by
  induction new with
  | nil => simp [union]
  | cons t new ih =>
    intro tables
    rw [union_cons, ih, anyAdmits_addTo, anyAdmits_cons, or_assoc]

theorem over_union {new : List Table} (hnew : ∀ t ∈ new, t.Over known allowed) :
    ∀ {tables : List Table}, (∀ t ∈ tables, t.Over known allowed) →
      ∀ t ∈ union tables new, t.Over known allowed := by
  induction new with
  | nil => exact fun h => h
  | cons t new ih =>
    intro tables h
    obtain ⟨ht, hrest⟩ := List.forall_mem_cons.mp hnew
    exact ih hrest (over_addTo ht h)

theorem nodup_union {new : List Table} : ∀ {tables : List Table}, (tables.map columns).Nodup →
    ((union tables new).map columns).Nodup := by
  induction new with
  | nil => exact fun h => h
  | cons t new ih => exact fun h => ih (nodup_addTo h)

theorem Proper.union {new : List Table} (hnew : ∀ t ∈ new, t.Over known allowed)
    {tables : List Table} (h : Proper known allowed tables) :
    Proper known allowed (union tables new) :=
  ⟨over_union hnew h.isOver, nodup_union h.distinct⟩

theorem addTo_ne_nil (t : Table) (tables : List Table) : t.addTo tables ≠ [] := by
  cases tables with
  | nil => simp [Table.addTo]
  | cons first rest =>
    rw [Table.addTo]
    split <;> simp

theorem union_ne_nil_of_left {new : List Table} : ∀ {tables : List Table}, tables ≠ [] →
    union tables new ≠ [] := by
  induction new with
  | nil => exact fun h => h
  | cons t new ih => exact fun _ => ih (addTo_ne_nil t _)

theorem union_ne_nil_of_right {tables new : List Table} (h : new ≠ []) :
    union tables new ≠ [] := by
  cases new with
  | nil => exact absurd rfl h
  | cons t new =>
    rw [union_cons]
    exact union_ne_nil_of_left (addTo_ne_nil t tables)

/-- Tables joined one by one into a list. -/
theorem joinInto_spec : ∀ {pairs : List (Table × Table)} {all : List Table},
    Proper known allowed all →
    (∀ p ∈ pairs, p.1.Over known allowed ∧ p.2.Over known allowed) →
    ∃ joined, joinInto all pairs = .ok joined ∧ Proper known allowed joined ∧
      (all ≠ [] ∨ pairs ≠ [] → joined ≠ []) ∧
      ∀ a, AnyAdmits joined a ↔
        AnyAdmits all a ∨ ∃ p ∈ pairs, p.1.Admits a ∧ p.2.Admits a
  | [], all, hall, _ => ⟨all, rfl, hall, by simp, by simp⟩
  | (left, right) :: rest, all, hall, hpairs => by
    obtain ⟨⟨hl, hr⟩, hrest⟩ := List.forall_mem_cons.mp hpairs
    obtain ⟨t, ht, hboth⟩ := both_spec hl.regular hr.regular
    have hover := (hboth.isOver hl hr).dedup
    have hall' : Proper known allowed (Table.union all [t.dedup]) := hall.addTo hover
    obtain ⟨joined, hok, hproper, hne, hadm⟩ := joinInto_spec hall' hrest
    refine ⟨joined, by rw [joinInto, ht]; exact hok, hproper,
      fun _ => hne (.inl (union_ne_nil_of_right (by simp))), fun a => ?_⟩
    rw [hadm, anyAdmits_union, anyAdmits_singleton, admits_dedup, hboth.admits, or_assoc]
    simp

/-- **Joining every table of one list with every table of another admits what both lists admit**,
and does not fail. -/
theorem joinAll_spec {left right : List Table} (hl : ∀ t ∈ left, t.Over known allowed)
    (hr : ∀ t ∈ right, t.Over known allowed) :
    ∃ joined, joinAll left right = .ok joined ∧ Proper known allowed joined ∧
      (left ≠ [] → right ≠ [] → joined ≠ []) ∧
      ∀ a, AnyAdmits joined a ↔ AnyAdmits left a ∧ AnyAdmits right a := by
  have hmem : ∀ p : Table × Table, (p ∈ left.flatMap fun l => right.map fun r => (l, r)) ↔
      p.1 ∈ left ∧ p.2 ∈ right := by
    rintro ⟨l, r⟩
    simp only [List.mem_flatMap, List.mem_map, Prod.mk.injEq]
    constructor
    · rintro ⟨l', hl', r', hr', rfl, rfl⟩
      exact ⟨hl', hr'⟩
    · rintro ⟨hl', hr'⟩
      exact ⟨l, hl', r, hr', rfl, rfl⟩
  have hnil : Proper known allowed [] := .nil
  obtain ⟨joined, hok, hproper, hne, hadm⟩ := joinInto_spec hnil fun p hp =>
    ⟨hl _ ((hmem p).mp hp).1, hr _ ((hmem p).mp hp).2⟩
  refine ⟨joined, hok, hproper, fun hleft hright => hne (.inr ?_), fun a => ?_⟩
  · obtain ⟨l, hl'⟩ := List.exists_mem_of_ne_nil _ hleft
    obtain ⟨r, hr'⟩ := List.exists_mem_of_ne_nil _ hright
    exact List.ne_nil_of_mem ((hmem (l, r)).mpr ⟨hl', hr'⟩)
  · rw [hadm]
    constructor
    · rintro (h | ⟨p, hp, h₁, h₂⟩)
      · exact absurd h (anyAdmits_nil a)
      · exact ⟨⟨p.1, ((hmem p).mp hp).1, h₁⟩, ⟨p.2, ((hmem p).mp hp).2, h₂⟩⟩
    · rintro ⟨⟨l, hl', h₁⟩, ⟨r, hr', h₂⟩⟩
      exact .inr ⟨(l, r), (hmem (l, r)).mpr ⟨hl', hr'⟩, h₁, h₂⟩

end Proper

/-! ## 6. Lists of tables as conditions -/

/-- The columns are in increasing order and at least one, and every row is as long as they are. -/
structure Ordered (t : Table) : Prop where
  nonempty : t.columns ≠ []
  increasing : t.columns.Pairwise (· < ·)
  length : ∀ row ∈ t.rows, row.length = t.columns.length

theorem ordered_iff_over {t : Table} :
    t.Ordered ↔ t.Over (fun _ => True) fun _ _ => True := by
  have hrow : ∀ {columns : List Nat} {row : Row},
      List.Forall₂ (fun (_ : Nat) (_ : Span) => True) columns row ↔
        row.length = columns.length := by
    intro columns row
    rw [List.forall₂_iff_zip]
    simp [eq_comm]
  constructor
  · intro h
    exact ⟨h.nonempty, h.increasing, fun _ _ => trivial, fun row hr => hrow.mpr (h.length row hr)⟩
  · intro h
    exact ⟨h.nonempty, h.increasing, fun row hr => hrow.mp (h.rows row hr)⟩

/-- **Joining two lists of tables is "and", and their union is "or"**: the join does not fail and
admits what both lists admit; the union admits what one of them admits.  Both are made of ordered
tables again, the join of tables with different columns, and the union of such ones if the tables
to which it adds are. -/
theorem joinAll_is_and_union_is_or {tables new : List Table} (htables : ∀ t ∈ tables, t.Ordered)
    (hnew : ∀ t ∈ new, t.Ordered) :
    (∃ joined, joinAll tables new = .ok joined ∧
      (∀ a, AnyAdmits joined a ↔ AnyAdmits tables a ∧ AnyAdmits new a) ∧
      (∀ t ∈ joined, t.Ordered) ∧ (joined.map columns).Nodup) ∧
    (∀ a, AnyAdmits (union tables new) a ↔ AnyAdmits tables a ∨ AnyAdmits new a) ∧
    (∀ t ∈ union tables new, t.Ordered) ∧
    ((tables.map columns).Nodup → ((union tables new).map columns).Nodup) := by
  simp only [ordered_iff_over] at htables hnew ⊢
  refine ⟨?_, fun a => anyAdmits_union, over_union hnew htables, nodup_union⟩
  obtain ⟨joined, hok, hproper, -, hadmits⟩ := joinAll_spec htables hnew
  exact ⟨joined, hok, hadmits, hproper.isOver, hproper.distinct⟩

/-- Alternatives over overlapping, equal and disjoint columns, one of them without rows. -/
theorem joinAll_is_and_union_is_or_overlapping :
    let a : Span := ⟨0, 1, 0, by decide⟩
    let b : Span := ⟨1, 2, 0, by decide⟩
    let tables : List Table := [⟨[0, 1], [[a, b], [b, b]]⟩, ⟨[2], []⟩]
    let new : List Table := [⟨[1, 2], [[b, a]]⟩, ⟨[2], [[b]]⟩]
    joinAll tables new = .ok [⟨[0, 1, 2], [[a, b, a], [b, b, a], [a, b, b], [b, b, b]]⟩,
        ⟨[1, 2], []⟩, ⟨[2], []⟩] ∧
      (∃ joined, joinAll tables new = .ok joined ∧
        (∀ a, AnyAdmits joined a ↔ AnyAdmits tables a ∧ AnyAdmits new a) ∧
        (∀ t ∈ joined, t.Ordered) ∧ (joined.map columns).Nodup) ∧
      (∀ a, AnyAdmits (union tables new) a ↔ AnyAdmits tables a ∨ AnyAdmits new a) ∧
      (∀ t ∈ union tables new, t.Ordered) ∧
      ((tables.map columns).Nodup → ((union tables new).map columns).Nodup) := by
  intro a b tables new
  have htables : ∀ t ∈ tables, t.Ordered := by
    rw [List.forall_mem_cons, List.forall_mem_singleton]
    exact ⟨⟨by simp, by simp, by simp⟩, ⟨by simp, by simp, by simp⟩⟩
  have hnew : ∀ t ∈ new, t.Ordered := by
    rw [List.forall_mem_cons, List.forall_mem_singleton]
    exact ⟨⟨by simp, by simp, by simp⟩, ⟨by simp, by simp, by simp⟩⟩
  exact ⟨by cbv, joinAll_is_and_union_is_or htables hnew⟩

end Table

end TaggedText.Query
