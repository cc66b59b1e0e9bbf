/-
# What the evaluation of a leaf finds

A leaf says yes or no to a choice when its predicate does for what the choice takes at the leaf's
arguments.  `Leaf.Sorts` relates the choices that an evaluation started from to those that it found:
**the leaf has said yes to every choice found, and no to every other one** that takes the leaf's
columns from the columns of the query.  Selecting the leaf's own rows starts from all choices
(`select_gives`), extending a table from those that the table admits (`extend_gives`), and
evaluating the leaf from those that one of the binding tables admits (`evaluate_gives`).

None of this fails.  It holds for predicates with effects too, of which nothing is known but what
they have answered.
-/
import TaggedText.Query.Plan
import TaggedText.Proofs.Selection
import TaggedText.Proofs.Query.Table

namespace TaggedText

open MonadAttach (CanReturn)
open Query

variable {m : Type → Type} [Monad m] [MonadAttach m]

/-! ## 1. Extended selections, read as choices -/

namespace Selection

/-- No column comes twice in the three lists, and the added columns are the arguments that the rows
lack. -/
structure Columns.Fits (c : Columns) : Prop where
  arguments : c.arguments.Nodup
  rows : c.rows.Nodup
  added : c.added.Nodup
  missing : ∀ column, column ∈ c.added ↔ column ∈ c.arguments ∧ column ∉ c.rows

theorem Columns.distinct_of_nodup {columns : List Nat} (h : columns.Nodup) :
    distinct columns = true := by
  simp [distinct, eraseDups_of_nodup h]

theorem Columns.Fits.output {c : Columns} (h : c.Fits) :
    c.output = .ok (c.rows ++ c.added).mergeSort := by
  rw [Columns.output]
  have hdistinct : (distinct c.arguments && distinct c.rows && distinct c.added) = true := by
    simp [distinct_of_nodup h.arguments, distinct_of_nodup h.rows, distinct_of_nodup h.added]
  have hadded : ∀ column, column ∈ (c.arguments.filter fun column => !c.rows.contains column) ↔
      column ∈ c.added := by simp [h.missing]
  rw [if_neg (by simp [hdistinct]), if_pos]
  simp only [Bool.and_eq_true, List.all_eq_true, List.contains_iff_mem]
  exact ⟨fun column hc => (hadded column).mp hc, fun column hc => (hadded column).mpr hc⟩

variable [LawfulMonad m] [LawfulMonadAttach m]

/-- **An extended selection keeps the choices whose rows exist**, whose added columns are taken from
the lists, and to whose arguments the test says yes. -/
theorem extend_gives {test : Row → m Bool} {rows : List Row} {lists : Nat → List Span}
    {c : Columns} {r : Except Clash (List Nat × List Row)} (hc : c.Fits)
    (hrows : ∀ row ∈ rows, row.length = c.rows.length)
    (h : Gives (extend test rows (c.added.map lists) c) r) :
    ∃ found, r = .ok ((c.rows ++ c.added).mergeSort, found) ∧
      (∀ row ∈ found, ∃ a : Choice, (c.rows ++ c.added).mergeSort.map a = row ∧
        c.rows.map a ∈ rows ∧ (∀ column ∈ c.added, a column ∈ lists column) ∧
        CanReturn (test (c.arguments.map a)) true) ∧
      ∀ a : Choice, c.rows.map a ∈ rows → (∀ column ∈ c.added, a column ∈ lists column) →
        (c.rows ++ c.added).mergeSort.map a ∉ found →
        CanReturn (test (c.arguments.map a)) false := by
  have hdisjoint : ∀ column ∈ c.rows, column ∈ c.added → False := fun column hr ha =>
    ((hc.missing column).mp ha).2 hr
  -- the arguments and the columns of the answer come from the rows or from what is added
  have harguments : ∀ column ∈ c.arguments, column ∈ c.rows ∨ column ∈ c.added := by
    intro column ha
    by_cases hr : column ∈ c.rows
    · exact .inl hr
    · exact .inr ((hc.missing column).mpr ⟨ha, hr⟩)
  have houtput : ∀ column ∈ (c.rows ++ c.added).mergeSort,
      column ∈ c.rows ∨ column ∈ c.added := by simp
  have htaken : ∀ a : Choice, (∀ column ∈ c.added, a column ∈ lists column) ↔
      List.Forall₂ (fun spans span => span ∈ spans) (c.added.map lists) (c.added.map a) := by
    intro a
    rw [List.forall₂_map_left_iff]
    exact (@Table.forall₂_map_iff (fun column span => span ∈ lists column) c.added a).symm
  rw [extend, hc.output] at h
  have h := Gives.of_ok_bind h
  simp only [List.length_map, ne_eq, not_true_eq_false, if_false] at h
  obtain ⟨kept, hkept, h⟩ := Gives.of_lift_bind h
  obtain ⟨hyes, hno⟩ := keep_gives hkept
  refine ⟨_, Gives.of_pure h, ?_, ?_⟩
  · intro row hrow
    obtain ⟨⟨existing, chosen⟩, hpair, rfl⟩ := List.mem_map.mp hrow
    obtain ⟨hcandidate, htest⟩ := hyes _ hpair
    obtain ⟨hexisting, hchosen⟩ := mem_candidates.mp hcandidate
    obtain ⟨a, rfl⟩ := exists_choice hc.rows (hrows _ hexisting)
    have hlength : chosen.length = c.added.length := by simpa using hchosen.length_eq.symm
    obtain ⟨b, rfl⟩ := exists_choice hc.added hlength
    -- the existing row and the added one come from one choice
    rw [← Choice.map_glue_left c.rows a b] at hexisting htest ⊢
    rw [← Choice.map_glue_right (a := a) (b := b) fun column hr ha =>
      (hdisjoint column hr ha).elim] at hchosen htest ⊢
    refine ⟨Choice.glue c.rows a b, ?_, hexisting, (htaken _).mpr hchosen, ?_⟩
    · exact (c.filterMap_span?_source _ houtput).symm
    · rwa [c.filterMap_span?_source _ harguments] at htest
  · intro a hexisting hchosen hnot
    have hcandidate := mem_candidates.mpr ⟨hexisting, (htaken a).mp hchosen⟩
    have htest := hno _ hcandidate fun hpair => hnot <| List.mem_map.mpr
      ⟨_, hpair, c.filterMap_span?_source _ houtput⟩
    rwa [c.filterMap_span?_source _ harguments] at htest

end Selection

namespace Query

/-! ## 2. Leaves -/

/-- The span is one of those of a column. -/
def InColumn (columns : List (List Span)) (c : Nat) (span : Span) : Prop :=
  span ∈ columns[c]?.getD []

/-- The choice takes some columns from the columns of a query. -/
def TakesFrom (columns : List (List Span)) (wanted : List Nat) (a : Choice) : Prop :=
  ∀ c ∈ wanted, InColumn columns c (a c)

namespace Leaf

variable {l : Leaf} {judge : Judge m} {columns : List (List Span)} {known : Nat → Prop}

theorem mem_columns {c : Nat} : c ∈ l.columns ↔ c ∈ l.arguments := by
  simp [Leaf.columns, List.mem_eraseDups]

theorem columns_ne_nil (h : l.arguments ≠ []) : l.columns ≠ [] := by
  obtain ⟨c, hc⟩ := List.exists_mem_of_ne_nil _ h
  exact List.ne_nil_of_mem (mem_columns.mpr hc)

/-- **The columns of a leaf are in increasing order.** -/
theorem pairwise_columns (l : Leaf) : l.columns.Pairwise (· < ·) := by
  have hle : l.arguments.mergeSort.Pairwise (· ≤ ·) := by
    simpa using List.pairwise_mergeSort' (· ≤ ·) l.arguments
  exact ((hle.sublist (eraseDups_sublist _)).and (nodup_eraseDups _)).imp fun ⟨h₁, h₂⟩ =>
    Nat.lt_of_le_of_ne h₁ h₂

/-- **A predicate reads what a choice takes at its arguments.** -/
theorem rowArguments_map (l : Leaf) (a : Choice) :
    l.rowArguments (l.columns.map a) = l.arguments.map a := by
  rw [rowArguments, List.filterMap_map]
  exact filterMap_eq_map fun c hc => getElem?_map_idxOf a (mem_columns.mpr hc)

/-- The predicate of the leaf may answer so for a choice. -/
def Says (judge : Judge m) (l : Leaf) (a : Choice) (answer : Bool) : Prop :=
  CanReturn (l.predicate.holds judge (l.arguments.map a)) answer

theorem canReturn_holds {a : Choice} {answer : Bool} :
    CanReturn (l.holds judge (l.columns.map a)) answer ↔ l.Says judge a answer := by
  rw [Leaf.holds, rowArguments_map, Says]

/-- A leaf reads a choice at its own columns only. -/
theorem says_congr {a b : Choice} (h : ∀ c ∈ l.columns, a c = b c) {answer : Bool} :
    l.Says judge a answer ↔ l.Says judge b answer := by
  rw [Says, Says, map_eq_map_iff.mpr fun c hc => h c (mem_columns.mpr hc)]

/-- **The choices found are those among the given ones to which the leaf has said yes**; it has said
no to every other one that takes the leaf's columns from the columns of the query. -/
structure Sorts (judge : Judge m) (columns : List (List Span)) (l : Leaf)
    (given found : Choice → Prop) : Prop where
  sound : ∀ a, found a → given a ∧ l.Says judge a true
  complete : ∀ a, given a → TakesFrom columns l.columns a → ¬ found a → l.Says judge a false

/-- **The leaf's own rows**, over its own columns. -/
structure Selected (judge : Judge m) (columns : List (List Span)) (l : Leaf) (own : Table) :
    Prop where
  columns_eq : own.columns = l.columns
  taken : ∀ row ∈ own.rows, List.Forall₂ (InColumn columns) own.columns row
  sorts : l.Sorts judge columns (fun _ => True) own.Admits

theorem Selected.isOver {own : Table} (h : l.Selected judge columns own) (hl : l.arguments ≠ [])
    (hknown : ∀ c ∈ l.columns, known c) : own.Over known (InColumn columns) where
  nonempty := h.columns_eq ▸ columns_ne_nil hl
  increasing := h.columns_eq ▸ l.pairwise_columns
  known := h.columns_eq ▸ hknown
  rows := h.taken

/-! ## 3. Extending tables -/

theorem mem_missing {t : Table} {c : Nat} :
    c ∈ l.missing t ↔ c ∈ l.columns ∧ c ∉ t.columns := by
  simp [missing]

/-- A leaf that misses all its columns in a table shares none with it. -/
theorem disjoint_of_missing {t : Table} (h : (l.missing t).length = l.columns.length) :
    ∀ c ∈ t.columns, c ∉ l.columns := fun c hc hl => by
  have := List.length_filter_eq_length_iff.mp h c hl
  simp [hc] at this

theorem fits_missing (l : Leaf) {t : Table} (ht : t.Regular) :
    Selection.Columns.Fits ⟨l.columns, t.columns, l.missing t⟩ where
  arguments := nodup_of_pairwise_lt l.pairwise_columns
  rows := ht.nodup
  added := (nodup_of_pairwise_lt l.pairwise_columns).filter _
  missing _ := mem_missing

/-- **A table extended by a leaf** has the columns of both, and admits of what the table admits that
to which the leaf has said yes. -/
structure Extended (judge : Judge m) (columns : List (List Span)) (known : Nat → Prop) (l : Leaf)
    (t extended : Table) : Prop where
  isOver : extended.Over known (InColumn columns)
  columns_eq : extended.columns = Table.combinedColumns t.columns l.columns
  sorts : l.Sorts judge columns t.Admits extended.Admits

theorem Extended.covers {t extended : Table} (h : l.Extended judge columns known t extended) :
    ∀ c ∈ l.columns, c ∈ extended.columns := by
  intro c hc
  rw [h.columns_eq, Table.mem_combinedColumns]
  exact .inr hc

/-- A table without a common column is extended by the leaf's own rows. -/
theorem Selected.crossed {own : Table} (h : l.Selected judge columns own) (hl : l.arguments ≠ [])
    (hknown : ∀ c ∈ l.columns, known c) {t : Table} (ht : t.Over known (InColumn columns))
    (hdisjoint : ∀ c ∈ t.columns, c ∉ l.columns) :
    ∃ crossed, t.cross own = .ok crossed ∧ l.Extended judge columns known t crossed := by
  have hover := h.isOver hl hknown
  obtain ⟨crossed, hok, hboth⟩ := Table.cross_spec ht.regular hover.regular
    (h.columns_eq ▸ hdisjoint)
  refine ⟨crossed, hok, hboth.isOver ht hover, ?_, ?_, ?_⟩
  · rw [hboth.columns, h.columns_eq]
  · intro a ha
    obtain ⟨hbase, hown⟩ := (hboth.admits a).mp ha
    exact ⟨hbase, (h.sorts.sound a hown).2⟩
  · intro a hbase htakes hnot
    exact h.sorts.complete a trivial htakes fun hown => hnot ((hboth.admits a).mpr ⟨hbase, hown⟩)

/-! ## 4. What an evaluation leaves -/

/-- Tables made of those extended so far: they admit of what these admit that to which the leaf has
said yes. -/
structure Made (judge : Judge m) (columns : List (List Span)) (known : Nat → Prop) (l : Leaf)
    (given made : List Table) : Prop where
  proper : Table.Proper known (InColumn columns) made
  nonempty : given ≠ [] → made ≠ []
  covers : ∀ t ∈ made, ∀ c ∈ l.columns, c ∈ t.columns
  sorts : l.Sorts judge columns (Table.AnyAdmits given) (Table.AnyAdmits made)

theorem Made.nil : l.Made judge columns known [] [] :=
  ⟨.nil, fun h => h, by simp, ⟨fun a ha => absurd ha (by simp), fun a ha => absurd ha (by simp)⟩⟩

/-- One more table is extended. -/
theorem Made.snoc {given made : List Table} (h : l.Made judge columns known given made)
    {t extended : Table} (hextended : l.Extended judge columns known t extended) :
    l.Made judge columns known (given ++ [t]) (Table.union made [extended.dedup]) where
  proper := h.proper.addTo hextended.isOver.dedup
  nonempty _ := Table.union_ne_nil_of_right (by simp)
  covers t' ht' := by
    rcases Table.columns_of_mem_addTo ht' with hc | ⟨first, hfirst, hc⟩
    · exact hc ▸ hextended.covers
    · exact hc ▸ h.covers first hfirst
  sorts := by
    have hgiven : ∀ a, Table.AnyAdmits (given ++ [t]) a ↔
        Table.AnyAdmits given a ∨ t.Admits a := by
      simp [Table.AnyAdmits, or_and_right, exists_or]
    have hmade : ∀ a, Table.AnyAdmits (Table.union made [extended.dedup]) a ↔
        Table.AnyAdmits made a ∨ extended.Admits a := by
      simp [Table.anyAdmits_union]
    refine ⟨fun a ha => ?_, fun a hg htakes hnot => ?_⟩
    · rcases (hmade a).mp ha with ha | ha
      · exact ⟨(hgiven a).mpr (.inl (h.sorts.sound a ha).1), (h.sorts.sound a ha).2⟩
      · exact ⟨(hgiven a).mpr (.inr (hextended.sorts.sound a ha).1),
          (hextended.sorts.sound a ha).2⟩
    · rw [hmade, not_or] at hnot
      rcases (hgiven a).mp hg with hg | hg
      · exact h.sorts.complete a hg htakes hnot.1
      · exact hextended.sorts.complete a hg htakes hnot.2

/-- The tables that bind a leaf admit the choice; without any, there is nothing to admit. -/
def BoundAdmits (bound : Option (List Table)) (a : Choice) : Prop :=
  ∀ tables ∈ bound, Table.AnyAdmits tables a

/-- **What an evaluation of a leaf leaves**: tables for its parent, which admit of what is bound
that to which the leaf has said yes, and the leaf's own rows, which are what these tables have in
the leaf's columns. -/
structure Evaluated (judge : Judge m) (columns : List (List Span)) (known : Nat → Prop)
    (bound : Option (List Table)) (l : Leaf) (made : List Table) (own : Table) : Prop where
  proper : Table.Proper known (InColumn columns) made
  nonempty : made ≠ []
  sorts : l.Sorts judge columns (BoundAdmits bound) (Table.AnyAdmits made)
  own_columns : own.columns = l.columns
  own_over : own.Over known (InColumn columns)
  own_admits : ∀ a, own.Admits a ↔ ∃ b, Table.AnyAdmits made b ∧ ∀ c ∈ l.columns, b c = a c

/-- Without binding tables, the leaf's own rows are all there is. -/
theorem Selected.evaluated {own : Table} (h : l.Selected judge columns own)
    (hl : l.arguments ≠ []) (hknown : ∀ c ∈ l.columns, known c) :
    l.Evaluated judge columns known none [own] own := by
  have hover := h.isOver hl hknown
  have hadmits : ∀ a, Table.AnyAdmits [own] a ↔ own.Admits a := fun a => Table.anyAdmits_singleton
  refine ⟨.singleton hover, by simp, ⟨?_, ?_⟩, h.columns_eq, hover, ?_⟩
  · intro a ha
    exact ⟨by simp [BoundAdmits], (h.sorts.sound a ((hadmits a).mp ha)).2⟩
  · intro a _ htakes hnot
    exact h.sorts.complete a trivial htakes (mt (hadmits a).mpr hnot)
  · intro a
    simp only [hadmits]
    refine ⟨fun ha => ⟨a, ha, fun _ _ => rfl⟩, ?_⟩
    rintro ⟨b, hb, hagree⟩
    exact (Table.admits_congr (h.columns_eq ▸ hagree)).mp hb

/-- What a table has in the columns of a leaf that are all among its own. -/
theorem columns_project_of_covers {t : Table} (ht : t.Over known (InColumn columns))
    (hcovers : ∀ c ∈ l.columns, c ∈ t.columns) : (t.project l.columns).columns = l.columns := by
  rw [Table.columns_project]
  refine eq_of_pairwise_lt (ht.increasing.filter _) l.pairwise_columns fun c => ?_
  simp only [List.mem_filter, List.contains_iff_mem]
  exact ⟨fun h => h.2, fun h => ⟨hcovers c h, h⟩⟩

/-- The own rows of a leaf that extends the tables binding it. -/
theorem Made.evaluated {tables made : List Table} (h : l.Made judge columns known tables made)
    (hl : l.arguments ≠ []) (hknown : ∀ c ∈ l.columns, known c) (hne : tables ≠ []) :
    l.Evaluated judge columns known (some tables) made
      (Table.dedup ⟨l.columns, made.flatMap fun t => (t.project l.columns).rows⟩) := by
  have hrow : ∀ row, row ∈ (made.flatMap fun t => (t.project l.columns).rows) ↔
      ∃ b, Table.AnyAdmits made b ∧ l.columns.map b = row := by
    intro row
    simp only [List.mem_flatMap, Table.AnyAdmits]
    constructor
    · rintro ⟨t, ht, hr⟩
      obtain ⟨b, hb, rfl⟩ := (Table.mem_rows_project (h.proper.isOver t ht).regular).mp hr
      rw [columns_project_of_covers (h.proper.isOver t ht) (h.covers t ht)]
      exact ⟨b, ⟨t, ht, hb⟩, rfl⟩
    · rintro ⟨b, ⟨t, ht, hb⟩, rfl⟩
      refine ⟨t, ht, (Table.mem_rows_project (h.proper.isOver t ht).regular).mpr ⟨b, hb, ?_⟩⟩
      rw [columns_project_of_covers (h.proper.isOver t ht) (h.covers t ht)]
  refine ⟨h.proper, h.nonempty hne, ⟨?_, ?_⟩, rfl, .dedup ⟨columns_ne_nil hl, l.pairwise_columns,
    hknown, ?_⟩, ?_⟩
  · intro a ha
    obtain ⟨hgiven, hyes⟩ := h.sorts.sound a ha
    exact ⟨by simpa [BoundAdmits] using hgiven, hyes⟩
  · intro a hgiven htakes hnot
    exact h.sorts.complete a (hgiven tables rfl) htakes hnot
  · intro row hr
    obtain ⟨b, ⟨t, ht, hb⟩, rfl⟩ := (hrow row).mp hr
    exact Table.forall₂_map_iff.mpr fun c hc =>
      (h.proper.isOver t ht).allowed_of_admits hb c (h.covers t ht c hc)
  · intro a
    rw [Table.admits_dedup, Table.Admits, hrow]
    simp only [map_eq_map_iff]

/-! ## 5. Evaluating a leaf -/

variable [LawfulMonad m] [LawfulMonadAttach m]

/-- **A selection finds the leaf's own rows.** -/
theorem select_gives (hl : l.arguments ≠ []) {own : Table}
    (h : CanReturn (l.select judge columns) own) : l.Selected judge columns own := by
  obtain ⟨rows, hrows, h⟩ := LawfulMonadAttach.canReturn_bind_imp' h
  obtain rfl : (⟨l.columns, rows⟩ : Table) = own := LawfulMonadAttach.eq_of_canReturn_pure h
  obtain ⟨hyes, hno⟩ := Selection.keep_gives hrows
  have hproduct : ∀ row, row ∈ Selection.product (factors columns l.columns) ↔
      List.Forall₂ (InColumn columns) l.columns row := by
    intro row
    have hne : factors columns l.columns ≠ [] := by simpa [factors] using columns_ne_nil hl
    rw [Selection.mem_product hne, factors, List.forall₂_map_left_iff]
    rfl
  refine ⟨rfl, fun row hr => (hproduct row).mp (hyes row hr).1, ?_, ?_⟩
  · intro a ha
    exact ⟨trivial, canReturn_holds.mp (hyes _ ha).2⟩
  · intro a _ htakes hnot
    exact canReturn_holds.mp (hno _ ((hproduct _).mpr (Table.forall₂_map_iff.mpr htakes)) hnot)

/-- Any other table is extended by what its rows lack. -/
theorem extended_of_selection (hknown : ∀ c ∈ l.columns, known c) {t : Table}
    (ht : t.Over known (InColumn columns)) {r : Except Clash (List Nat × List Row)}
    (h : Gives (Selection.extend (l.holds judge) t.rows (factors columns (l.missing t))
      ⟨l.columns, t.columns, l.missing t⟩) r) :
    ∃ output rows, r = .ok (output, rows) ∧
      l.Extended judge columns known t ⟨output, rows⟩ := by
  have hfits := l.fits_missing ht.regular
  obtain ⟨rows, hok, hsound, hcomplete⟩ := Selection.extend_gives hfits ht.regular.length h
  have hmem : ∀ c, c ∈ (t.columns ++ l.missing t).mergeSort ↔
      c ∈ t.columns ∨ c ∈ l.missing t := by simp
  have hcovers : ∀ c ∈ l.columns, c ∈ (t.columns ++ l.missing t).mergeSort := by
    intro c hc
    rw [hmem, mem_missing]
    tauto
  have hincreasing := Table.pairwise_combinedColumns hfits.rows hfits.arguments
  refine ⟨_, rows, hok, ?_, rfl, ?_, ?_⟩
  · refine .of_regular ?_ hincreasing ?_ ⟨nodup_of_pairwise_lt hincreasing, ?_⟩ ?_
    · obtain ⟨c, hc⟩ := List.exists_mem_of_ne_nil _ ht.nonempty
      exact List.ne_nil_of_mem ((hmem c).mpr (.inl hc))
    · intro c hc
      rcases (hmem c).mp hc with hc | hc
      · exact ht.known c hc
      · exact hknown c (mem_missing.mp hc).1
    · intro row hrow
      obtain ⟨a, rfl, -⟩ := hsound row hrow
      exact List.length_map _
    · -- what is admitted is allowed, in the columns of the table and in the added ones
      intro a ha c hc
      obtain ⟨b, hb, hbase, hadded, -⟩ := hsound _ ha
      rw [← map_eq_map_iff.mp hb c hc]
      rcases (hmem c).mp hc with hc | hc
      · exact ht.allowed_of_admits (t := t) hbase c hc
      · exact hadded c hc
  · intro a ha
    obtain ⟨b, hb, hbase, -, hyes⟩ := hsound _ ha
    have hagree := map_eq_map_iff.mp hb
    refine ⟨(Table.admits_congr fun c hc => hagree c ((hmem c).mpr (.inl hc))).mp hbase, ?_⟩
    rw [map_eq_map_iff.mpr fun c hc => hagree c (hcovers c hc)] at hyes
    exact canReturn_holds.mp hyes
  · intro a hbase htakes hnot
    exact canReturn_holds.mp
      (hcomplete a hbase (fun c hc => htakes c (mem_missing.mp hc).1) hnot)

/-- **Extending a table does not fail.**  Own rows that were found on the way are kept. -/
theorem extend_gives (hl : l.arguments ≠ []) (hknown : ∀ c ∈ l.columns, known c)
    {own : Option Table} (hown : ∀ o ∈ own, l.Selected judge columns o) {t : Table}
    (ht : t.Over known (InColumn columns)) {r : Except Fault (Option Table × Table)}
    (h : Gives (l.extend judge columns own t) r) :
    ∃ own' extended, r = .ok (own', extended) ∧ (∀ o ∈ own', l.Selected judge columns o) ∧
      l.Extended judge columns known t extended := by
  rw [extend] at h
  split at h
  · next hall =>
    obtain ⟨o, ho, h⟩ : ∃ o, l.Selected judge columns o ∧ Gives (do
        let crossed ← liftFault (m := m) (t.cross o)
        return (some o, crossed)) r := by
      cases own with
      | some o => exact ⟨o, hown o rfl, by simpa using h⟩
      | none =>
        obtain ⟨o, ho, h⟩ := Gives.of_lift_bind h
        exact ⟨o, select_gives hl ho, h⟩
    obtain ⟨crossed, hcross, hextended⟩ := ho.crossed hl hknown ht (disjoint_of_missing hall)
    rw [hcross] at h
    have h := Gives.of_liftFault_ok_bind h
    exact ⟨some o, crossed, Gives.of_pure h, by simpa using ho, hextended⟩
  · obtain ⟨first, hfirst, h⟩ := h.first
    obtain ⟨r', hr', rfl⟩ := Gives.of_adapt hfirst
    obtain ⟨output, rows, rfl, hextended⟩ := extended_of_selection hknown ht hr'
    exact ⟨own, _, Gives.of_pure (h _ rfl), hown, hextended⟩

/-- **Extending tables one by one**, behind those that were extended before. -/
theorem extendAll_gives (hl : l.arguments ≠ []) (hknown : ∀ c ∈ l.columns, known c) :
    ∀ {tables given made : List Table} {own : Option Table} {r : Except Fault (List Table)},
    (∀ o ∈ own, l.Selected judge columns o) →
    (∀ t ∈ tables, t.Over known (InColumn columns)) → l.Made judge columns known given made →
    Gives (l.extendAll judge columns own made tables) r →
    ∃ all, r = .ok all ∧ l.Made judge columns known (given ++ tables) all
  | [], given, made, own, r, _, _, hmade, h =>
    ⟨made, Gives.of_pure h, by simpa using hmade⟩
  | t :: rest, given, made, own, r, hown, htables, hmade, h => by
    obtain ⟨ht, hrest⟩ := List.forall_mem_cons.mp htables
    rw [extendAll] at h
    obtain ⟨first, hfirst, h⟩ := h.first
    obtain ⟨own', extended, rfl, hown', hextended⟩ := extend_gives hl hknown hown ht hfirst
    obtain ⟨all, hok, hall⟩ :=
      extendAll_gives hl hknown hown' hrest (hmade.snoc hextended) (h _ rfl)
    exact ⟨all, hok, by simpa using hall⟩

/-- **Evaluating a leaf does not fail.** -/
theorem evaluate_gives (hl : l.arguments ≠ []) (hknown : ∀ c ∈ l.columns, known c)
    {bound : Option (List Table)}
    (hbound : ∀ tables ∈ bound, tables ≠ [] ∧ ∀ t ∈ tables, t.Over known (InColumn columns))
    {r : Except Fault (List Table × Table)} (h : Gives (l.evaluate judge columns bound) r) :
    ∃ made own, r = .ok (made, own) ∧ l.Evaluated judge columns known bound made own := by
  cases bound with
  | none =>
    obtain ⟨own, hown, h⟩ := Gives.of_lift_bind h
    exact ⟨[own], own, Gives.of_pure h, (select_gives hl hown).evaluated hl hknown⟩
  | some tables =>
    obtain ⟨hne, htables⟩ := hbound tables rfl
    obtain ⟨first, hfirst, h⟩ := h.first
    obtain ⟨made, rfl, hmade⟩ := extendAll_gives hl hknown (by simp) htables .nil hfirst
    exact ⟨made, _, Gives.of_pure (h _ rfl), hmade.evaluated hl hknown hne⟩

end Leaf

end Query

end TaggedText
