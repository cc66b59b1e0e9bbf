/-
# Answers over some of the columns

A query may be asked for some of its columns only, in an order of its own.  Its tables are then
completed to these columns instead of all.  A row over them comes from a choice that some table
admits; where the other columns hold something, the choice can be changed to take them from there
(`exists_full_choice`), and is then one for a row over all columns.  So **a query that is asked for
some columns answers with the restrictions of its whole rows**: `projection_restricts_rows`.

A column that holds nothing is what spoils this: no whole row can take a span of it.
-/
import TaggedText.Proofs.Query.Answer

namespace TaggedText.Query

variable {columns : List (List Span)}

/-! ## 1. Choices over all columns -/

/-- The choice of the first span of every column, and of another choice where there is none. -/
def firstChoice (columns : List (List Span)) (a : Choice) : Choice :=
  fun c => ((columns[c]?.getD []).head?).getD (a c)

theorem inColumn_firstChoice {c : Nat} {a : Choice} (hc : columns[c]?.getD [] ≠ []) :
    InColumn columns c (firstChoice columns a c) := by
  rw [InColumn, firstChoice]
  cases hspans : columns[c]?.getD [] with
  | nil => exact absurd hspans hc
  | cons span rest => simp

/-- **A choice for some columns that a table admits can be made one for all columns**, if the
others hold something. -/
theorem exists_full_choice {known : Nat → Prop} {t : Table} (ht : t.Over known (InColumn columns))
    {output : List Nat} (hother : ∀ c < columns.length, c ∉ output → columns[c]?.getD [] ≠ [])
    {a : Choice} (ha : t.Admits a) (htakes : TakesFrom columns output a) :
    ∃ b, t.Admits b ∧ TakesFrom columns (List.range columns.length) b ∧
      output.map b = output.map a := by
  refine ⟨Choice.glue (t.columns ++ output) a (firstChoice columns a), ?_, fun c hc => ?_, ?_⟩
  · refine (Table.admits_congr fun c hc => ?_).mpr ha
    simp [Choice.glue, hc]
  · by_cases hct : c ∈ t.columns
    · simpa [Choice.glue, hct] using ht.allowed_of_admits ha c hct
    by_cases hco : c ∈ output
    · simpa [Choice.glue, hco] using htakes c hco
    · have hfirst : InColumn columns c (firstChoice columns a c) :=
        inColumn_firstChoice (hother c (List.mem_range.mp hc) hco)
      simpa [Choice.glue, hct, hco] using hfirst
  · rw [map_eq_map_iff]
    intro c hc
    simp [Choice.glue, hc]

/-- The spans of a whole row at some columns. -/
theorem map_getElem?_range {n : Nat} {output : List Nat} (hrange : ∀ c ∈ output, c < n) (a : Choice)
    {row : Row} : output.map (fun c => ((List.range n).map a)[c]?) = row.map some ↔
      output.map a = row := by
  have hpick : output.map (fun c => ((List.range n).map a)[c]?) = (output.map a).map some := by
    rw [List.map_map]
    exact List.map_congr_left fun c hc => by simp [hrange c hc]
  rw [hpick]
  exact (List.map_injective_iff.mpr (Option.some_injective _)).eq_iff

/-! ## 2. Two runs -/

/-- **The rows of an expression over some columns are the restrictions of its rows over all.** -/
theorem rowsOf_project {judge : Judge Id} {e : Expr} (he : e.Applied columns.length)
    {output : List Nat} (hne : output ≠ []) (hdistinct : output.Nodup)
    (hrange : ∀ c ∈ output, c < columns.length)
    (hother : ∀ c < (columns ++ e.copies columns).length, c ∉ output →
      (columns ++ e.copies columns)[c]?.getD [] ≠ [])
    {whole some' : Except Fault (List Row)} (hwhole : Gives (rowsOf judge columns [] e) whole)
    (hsome : Gives (rowsOf judge columns output e) some') :
    ∃ all rows, whole = .ok all ∧ some' = .ok rows ∧ rows.Nodup ∧
      ∀ row, row ∈ rows ↔ ∃ full ∈ all, output.map (fun c => full[c]?) = row.map some := by
  obtain ⟨tables, all, hall, -, -, hcaptures, hmemall⟩ :=
    rowsOf_captures he List.nodup_nil hwhole
  obtain ⟨tables', rows, hrows, hnodup, hover', hcaptures', hmemrows⟩ :=
    rowsOf_captures he hdistinct hsome
  refine ⟨all, rows, hall, hrows, hnodup, fun row => ?_⟩
  rw [answerColumns, if_neg (by simpa using hne)] at hmemrows
  rw [answerColumns, if_pos List.isEmpty_nil] at hmemall
  have hin : ∀ c ∈ output, c < (columns ++ e.copies columns).length := fun c hc => by
    have := hrange c hc
    rw [List.length_append]
    omega
  rw [hmemrows]
  constructor
  · rintro ⟨a, ⟨t, ht, ha⟩, htakes, rfl⟩
    obtain ⟨b, hb, hbtakes, hba⟩ := exists_full_choice (hover' t ht) hother ha htakes
    -- what one run admits, the other one captures
    have htrue := hcaptures'.sound b ⟨t, ht, hb⟩
    have hadmits := hcaptures.complete b (takesFrom_used he hbtakes) trivial htrue
    exact ⟨_, (hmemall _).mpr ⟨b, hadmits, hbtakes, rfl⟩, (map_getElem?_range hin b).mpr hba⟩
  · rintro ⟨full, hfull, hrow⟩
    obtain ⟨a, ha, htakes, rfl⟩ := (hmemall full).mp hfull
    have htrue := hcaptures.sound a ha
    exact ⟨a, hcaptures'.complete a (takesFrom_used he htakes) trivial htrue,
      fun c hc => htakes c (List.mem_range.mpr (hin c hc)), (map_getElem?_range hin a).mp hrow⟩

/-! ## 3. Queries -/

/-- Columns that are different and columns of the query can be asked for. -/
theorem project_eq_ok {q : Query} {output : List Nat} (hne : output ≠ [])
    (hdistinct : output.Nodup) (hrange : ∀ c ∈ output, c < q.columns.length) :
    q.project output = .ok { q with output := output } := by
  have hlength : output.eraseDups.length = output.length := by
    rw [eraseDups_of_nodup hdistinct]
  have hany : ¬ output.any fun c => q.columns.length ≤ c := by
    simpa using hrange
  rw [project, if_neg (by simp only [hlength, ne_eq, not_true_eq_false, false_or]; exact hany),
    if_neg (by simpa using hne)]

/-- A query that can be read and has not been answered runs its expression. -/
theorem execute_gives_rows {judge : Judge Id} {q : Query} (hanswer : q.answer = none)
    {tokens : List Token} {e : Expr} (htokens : tokenize q.text = .ok tokens)
    (hread : Expr.ofTokens q.text ⟨q.users, q.columns.length⟩ tokens = .ok e) :
    Gives (rowsOf judge q.columns q.output e) (execute judge q).run.2.1 := by
  have hreturn : MonadAttach.CanReturn (execute judge q) (execute judge q).run := rfl
  rcases execute_gives hreturn with
    ⟨rows, hsome, -⟩ | ⟨fault, hfault, -⟩ | ⟨tokens', htokens', hend⟩
  · cases hanswer.symm.trans hsome
  · cases htokens.symm.trans hfault
  · cases htokens.symm.trans htokens'
    rcases hend with ⟨fault, hfault, -⟩ | ⟨e', he', hrows⟩
    · cases hread.symm.trans hfault
    · cases hread.symm.trans he'
      exact hrows

/-- **A query that is asked for some columns answers with the restrictions of its whole rows** to
them, in their order and each once, if all other columns hold something, the copies of repeated
ones among them. -/
theorem projection_restricts_rows [Pattern.Engine] (d : Document) (references : List Reference)
    (text : String) (users : List String) (judge : Judge Id) {tokens : List Token} {e : Expr}
    {output : List Nat}
    (htokens : tokenize text = .ok tokens)
    (hread : Expr.ofTokens text ⟨users, references.length⟩ tokens = .ok e)
    (hne : output ≠ []) (hdistinct : output.Nodup)
    (hrange : ∀ c ∈ output, c < references.length)
    (hother : let columns := references.map (d.spansOf false)
      ∀ c < (columns ++ e.copies columns).length, c ∉ output →
        (columns ++ e.copies columns)[c]?.getD [] ≠ []) :
    let q := { (make d references text).1 with users := users }
    ∃ projected all rows, q.project output = .ok projected ∧
      (execute judge q).run.2.1 = .ok all ∧ (execute judge projected).run.2.1 = .ok rows ∧
      rows.Nodup ∧
      ∀ row, row ∈ rows ↔ ∃ whole ∈ all, output.map (fun c => whole[c]?) = row.map some := by
  intro q
  have hlength : q.columns.length = references.length := List.length_map _
  have hread' : Expr.ofTokens text ⟨users, q.columns.length⟩ tokens = .ok e := hlength ▸ hread
  have hrange' : ∀ c ∈ output, c < q.columns.length := hlength ▸ hrange
  obtain ⟨all, rows, hall, hrows, hnodup, hmem⟩ :=
    rowsOf_project (Expr.applied_ofTokens hread') hne hdistinct hrange' hother
      (execute_gives_rows (q := q) rfl htokens hread')
      (execute_gives_rows (q := { q with output := output }) rfl htokens hread')
  exact ⟨_, all, rows, project_eq_ok hne hdistinct hrange', hall, hrows, hnodup, hmem⟩

/-- Both columns in the other order, for pairs of which one or two pick from the first column. -/
theorem projection_restricts_rows_swapped :
    let d := Document.ofString "aba" false
    let judge : Judge Id := fun _ _ => false
    let q := (make d [.literal "a", .literal "b"] "before(0, 1) or before(0, 0)").1
    ∃ projected all rows, q.project [1, 0] = .ok projected ∧
      (execute judge q).run.2.1 = .ok all ∧ (execute judge projected).run.2.1 = .ok rows ∧
      rows.Nodup ∧
      ∀ row, row ∈ rows ↔ ∃ whole ∈ all, [1, 0].map (fun c => whole[c]?) = row.map some := by
  intro d judge q
  let tokens : List Token := [.name "before", .opening, .number 0, .comma, .number 1, .closing,
    .disjunction, .name "before", .opening, .number 0, .comma, .number 0, .closing]
  let e := Expr.node .disjunction (.leaf (.relation .before) [0, 1])
    (.leaf (.relation .before) [0, 0])
  have htokens : tokenize "before(0, 1) or before(0, 0)" = .ok tokens := rfl
  have hread : Expr.ofTokens "before(0, 1) or before(0, 0)" ⟨[], 2⟩ tokens = .ok e := rfl
  have hcolumns : q.columns ++ e.copies q.columns =
      [[⟨0, 1, 0, by decide⟩, ⟨2, 3, 0, by decide⟩], [⟨1, 2, 0, by decide⟩],
        [⟨0, 1, 0, by decide⟩, ⟨2, 3, 0, by decide⟩]] := by rfl
  have hother : ∀ c < (q.columns ++ e.copies q.columns).length, c ∉ [1, 0] →
      (q.columns ++ e.copies q.columns)[c]?.getD [] ≠ [] := by
    rw [hcolumns]
    decide
  exact projection_restricts_rows d [.literal "a", .literal "b"] _ [] judge htokens hread
    (by decide) (by decide) (by decide) hother

end TaggedText.Query
