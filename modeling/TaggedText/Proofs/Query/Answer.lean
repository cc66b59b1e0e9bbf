/-
# Answers

The tables that an evaluation ends with are completed to the columns of the answer: a column that a
table lacks takes every span.  So **the rows of an answer are the rows of the full product for which
the query is true**, each of them once (`answer_is_product_where_true`).

Completing tables does not fail either, so a query that can be read is answered:
`evaluation_is_total`.
-/
import TaggedText.Pattern.Compile
import TaggedText.Proofs.Query.Exactness
import TaggedText.Proofs.Query.Repeats

namespace TaggedText.Query

variable {columns : List (List Span)}

/-! ## 1. One table -/

/-- The table over columns of which it lacks some, as the answer completes it. -/
def fillTable (columns : List (List Span)) (wanted : List Nat) (t : Table) : Except Fault Table :=
  let kept := t.project wanted
  let free := wanted.filter fun c => !kept.columns.contains c
  if free.isEmpty then pure kept
  else kept.cross ⟨free, Selection.product (factors columns free)⟩

theorem completeTable_eq (columns : List (List Span)) (output : List Nat) (t : Table) :
    completeTable columns output t =
      (fillTable columns output.mergeSort t).map fun filled =>
        filled.rows.map (Table.pick (output.filterMap filled.columns.idxOf?)) := by
  rw [completeTable, fillTable]
  split <;> rfl

/-- **Completing a table does not fail**: the free columns are not among its own. -/
theorem completeTable_ok (columns : List (List Span)) (output : List Nat) (t : Table) :
    ∃ rows, completeTable columns output t = .ok rows := by
  have hfill : ∃ filled, fillTable columns output.mergeSort t = .ok filled := by
    rw [fillTable]
    split
    · exact ⟨_, rfl⟩
    · have hany : (t.project output.mergeSort).columns.any (output.mergeSort.filter fun c =>
          !(t.project output.mergeSort).columns.contains c).contains = false := by
        simp +contextual [List.any_eq_false]
      exact ⟨_, by rw [Table.cross, if_neg (by simpa using hany)]⟩
  obtain ⟨filled, hok⟩ := hfill
  exact ⟨_, by rw [completeTable_eq, hok]; rfl⟩

/-- The product of free columns as a table. -/
theorem regular_product (columns : List (List Span)) {free : List Nat} (hfree : free.Nodup)
    (hne : free ≠ []) :
    Table.Regular ⟨free, Selection.product (factors columns free)⟩ ∧
      ∀ a, Table.Admits ⟨free, Selection.product (factors columns free)⟩ a ↔
        TakesFrom columns free a := by
  have hproduct : ∀ row, row ∈ Selection.product (factors columns free) ↔
      List.Forall₂ (InColumn columns) free row := by
    intro row
    rw [Selection.mem_product (by simpa [factors] using hne), factors, List.forall₂_map_left_iff]
    rfl
  refine ⟨⟨hfree, fun row hr => ((hproduct row).mp hr).length_eq.symm⟩, fun a => ?_⟩
  rw [Table.Admits, hproduct, Table.forall₂_map_iff, TakesFrom]

/-- **A filled table has all wanted columns**; the free ones take every span. -/
theorem fillTable_spec {t : Table} (ht : t.Regular) {wanted : List Nat} (hw : wanted.Nodup)
    {filled : Table} (h : fillTable columns wanted t = .ok filled) :
    filled.Regular ∧ (∀ c, c ∈ filled.columns ↔ c ∈ wanted) ∧
      ∀ a, filled.Admits a ↔ (t.project wanted).Admits a ∧
        ∀ c ∈ wanted, c ∉ t.columns → InColumn columns c (a c) := by
  have hkept : ∀ c, c ∈ (t.project wanted).columns ↔ c ∈ t.columns ∧ c ∈ wanted := by
    simp [Table.columns_project]
  have hfree : ∀ c, c ∈ (wanted.filter fun c => !(t.project wanted).columns.contains c) ↔
      c ∈ wanted ∧ c ∉ t.columns := by
    intro c
    simp only [List.mem_filter, Bool.not_eq_true', List.contains_eq_mem, decide_eq_false_iff_not,
      hkept]
    tauto
  have hnodup : (wanted.filter fun c => !(t.project wanted).columns.contains c).Nodup :=
    hw.filter _
  simp only [fillTable] at h
  generalize (wanted.filter fun c => !(t.project wanted).columns.contains c) = free
    at h hfree hnodup
  split at h
  · next hempty =>
    cases h
    have hnone : ∀ c ∈ wanted, c ∈ t.columns := fun c hc => by
      by_contra hnot
      exact List.ne_nil_of_mem ((hfree c).mpr ⟨hc, hnot⟩) (List.isEmpty_iff.mp hempty)
    refine ⟨ht.project wanted, fun c => ?_, fun a => ?_⟩
    · rw [hkept]
      exact ⟨fun hc => hc.2, fun hc => ⟨hnone c hc, hc⟩⟩
    · exact ⟨fun ha => ⟨ha, fun c hc hnot => absurd (hnone c hc) hnot⟩, fun ha => ha.1⟩
  · next hempty =>
    obtain ⟨hregular, hadmits⟩ := regular_product columns hnodup
      (by simpa using hempty)
    obtain ⟨crossed, hcross, hboth⟩ := Table.cross_spec (ht.project wanted) hregular fun c hc hc' =>
      ((hfree c).mp hc').2 ((hkept c).mp hc).1
    cases hcross.symm.trans h
    refine ⟨hboth.regular, fun c => ?_, fun a => ?_⟩
    · rw [hboth.columns, Table.mem_combinedColumns, hkept]
      simp only [hfree]
      tauto
    · rw [hboth.admits, hadmits, TakesFrom]
      simp only [hfree, and_imp]

/-- **The rows of a completed table** are what the choices take that the table admits and that take
the columns it lacks from those of the query. -/
theorem mem_completeTable {t : Table} (ht : t.Regular) {output : List Nat} (hout : output.Nodup)
    {rows : List Row} (h : completeTable columns output t = .ok rows) {row : Row} :
    row ∈ rows ↔ ∃ a, t.Admits a ∧ (∀ c ∈ output, c ∉ t.columns → InColumn columns c (a c)) ∧
      output.map a = row := by
  rw [completeTable_eq] at h
  obtain ⟨filled, hfilled, rfl⟩ := exists_of_map_ok h
  have hsorted : ∀ c, c ∈ output.mergeSort ↔ c ∈ output := by simp
  obtain ⟨hregular, hcolumns, hadmits⟩ :=
    fillTable_spec ht ((List.mergeSort_perm output _).nodup_iff.mpr hout) hfilled
  simp only [hsorted] at hcolumns hadmits
  have hpick : ∀ a : Choice, Table.pick (output.filterMap filled.columns.idxOf?)
      (filled.columns.map a) = output.map a := by
    intro a
    rw [Table.pick_map, List.filter_eq_self.mpr]
    exact fun c hc => List.contains_iff_mem.mpr ((hcolumns c).mpr hc)
  rw [List.mem_map]
  constructor
  · rintro ⟨whole, hwhole, rfl⟩
    obtain ⟨a, rfl, ha⟩ := hregular.exists_admits hwhole
    obtain ⟨hproject, hfree⟩ := (hadmits a).mp ha
    obtain ⟨b, hb, hagree⟩ := (Table.admits_project ht).mp hproject
    -- the choice that follows the table where it can, and the answer elsewhere
    have houtput : ∀ c ∈ output, Choice.glue t.columns b a c = a c := by
      intro c hc
      by_cases hct : c ∈ t.columns
      · simp [Choice.glue, hct, hagree c hct ((hsorted c).mpr hc)]
      · simp [Choice.glue, hct]
    refine ⟨Choice.glue t.columns b a, ?_, fun c hc hnot => ?_, ?_⟩
    · rwa [Table.Admits, Choice.map_glue_left]
    · rw [houtput c hc]
      exact hfree c hc hnot
    · rw [hpick, map_eq_map_iff]
      exact houtput
  · rintro ⟨a, ha, hfree, rfl⟩
    refine ⟨_, (hadmits a).mpr ⟨?_, hfree⟩, hpick a⟩
    exact (Table.admits_project ht).mpr ⟨a, ha, fun _ _ _ => rfl⟩

/-! ## 2. All tables -/

theorem mapM_ok {f : Table → Except Fault (List Row)} (h : ∀ t, ∃ rows, f t = .ok rows) :
    ∀ tables : List Table, ∃ all, tables.mapM f = .ok all ∧
      ∀ rows, rows ∈ all ↔ ∃ t ∈ tables, f t = .ok rows
  | [] => ⟨[], rfl, by simp⟩
  | t :: rest => by
    obtain ⟨rows, hrows⟩ := h t
    obtain ⟨all, hall, hmem⟩ := mapM_ok h rest
    refine ⟨rows :: all, by rw [List.mapM_cons, hrows, hall]; rfl, fun rows' => ?_⟩
    have hfirst : f t = .ok rows' ↔ rows' = rows := by
      rw [hrows, Except.ok.injEq, eq_comm]
    simp only [List.mem_cons, hmem, exists_eq_or_imp, hfirst]

/-- **Completing tables does not fail**, and gives each row once. -/
theorem complete_ok (columns : List (List Span)) (output : List Nat) (tables : List Table) :
    ∃ rows, complete columns output tables = .ok rows ∧ rows.Nodup ∧
      ∀ row, row ∈ rows ↔
        ∃ t ∈ tables, ∃ found, completeTable columns output t = .ok found ∧ row ∈ found := by
  obtain ⟨all, hall, hmem⟩ := mapM_ok (completeTable_ok columns output) tables
  refine ⟨_, by rw [complete, hall]; rfl, nodup_eraseDups _, fun row => ?_⟩
  simp only [List.mem_eraseDups, List.mem_flatten, hmem]
  constructor
  · rintro ⟨found, ⟨t, ht, hfound⟩, hrow⟩
    exact ⟨t, ht, found, hfound, hrow⟩
  · rintro ⟨t, ht, found, hfound, hrow⟩
    exact ⟨found, ⟨t, ht, hfound⟩, hrow⟩

/-- **The rows of an answer are what the choices take that the tables admit**, and that take the
columns of the answer from those of the query. -/
theorem mem_complete {known : Nat → Prop} {tables : List Table}
    (ht : ∀ t ∈ tables, t.Over known (InColumn columns)) {output : List Nat} (hout : output.Nodup)
    {rows : List Row} (h : complete columns output tables = .ok rows) {row : Row} :
    row ∈ rows ↔ ∃ a, Table.AnyAdmits tables a ∧ TakesFrom columns output a ∧
      output.map a = row := by
  obtain ⟨_, hok, -, hmem⟩ := complete_ok columns output tables
  cases hok.symm.trans h
  rw [hmem]
  constructor
  · rintro ⟨t, htt, found, hfound, hrow⟩
    obtain ⟨a, ha, hfree, rfl⟩ := (mem_completeTable (ht t htt).regular hout hfound).mp hrow
    refine ⟨a, ⟨t, htt, ha⟩, fun c hc => ?_, rfl⟩
    by_cases hct : c ∈ t.columns
    · exact (ht t htt).allowed_of_admits ha c hct
    · exact hfree c hc hct
  · rintro ⟨a, ⟨t, htt, ha⟩, htakes, rfl⟩
    obtain ⟨found, hfound⟩ := completeTable_ok columns output t
    exact ⟨t, htt, found, hfound, (mem_completeTable (ht t htt).regular hout hfound).mpr
      ⟨a, ha, fun c hc _ => htakes c hc, rfl⟩⟩

/-! ## 3. Expressions -/

section Rows

open MonadAttach (CanReturn)

variable {m : Type → Type} [Monad m] [LawfulMonad m] [MonadAttach m] [LawfulMonadAttach m]
variable {judge : Judge m}

/-- The columns of the answer, when a list of columns was asked for. -/
def answerColumns (columns : List (List Span)) (output : List Nat) : List Nat :=
  if output.isEmpty then List.range columns.length else output

/-- The tree of an expression with its repeated columns split. -/
def splitTree (columns : List (List Span)) (e : Expr) : Tree :=
  Tree.ofExpr (e.renumbered columns.length)

theorem applied_split {e : Expr} (he : e.Applied columns.length) :
    (e.renumbered columns.length).Applied (columns ++ e.copies columns).length := by
  have h := Expr.applied_renumbered (Nat.le_refl _) he
  simpa [Expr.copies] using h

theorem formed_splitTree {e : Expr} (he : e.Applied columns.length) :
    (splitTree columns e).Formed :=
  Tree.formed_ofExpr fun l hl => (applied_split he l hl).1

/-- The leaves of a split expression use columns of the query or copies. -/
theorem lt_of_mem_used {e : Expr} (he : e.Applied columns.length) {c : Nat}
    (hc : c ∈ (splitTree columns e).used) : c < (columns ++ e.copies columns).length := by
  rw [Tree.used, splitTree, Tree.leaves_ofExpr] at hc
  obtain ⟨l, hl, hc⟩ := List.mem_flatMap.mp hc
  exact (applied_split he l hl).2 c hc

/-- **The rows of an expression come from a finished plan of its split tree.** -/
theorem rowsOf_gives {output : List Nat} {e : Expr} (he : e.Applied columns.length)
    {I : Plan → Prop}
    (hfirst : ∀ {p : Plan} {found : Option (List Table)},
      (Plan.ofTree (splitTree columns e)).refresh (columns ++ e.copies columns) none =
        .ok (p, found) → I p)
    (hround : ∀ {s s' : Scheduler} {n : Nat}, I s.plan →
      s.Underway (columns ++ e.copies columns) (splitTree columns e) n →
      Gives (s.round judge (columns ++ e.copies columns)) (.ok s') → I s'.plan)
    {r : Except Fault (List Row)} (h : Gives (rowsOf judge columns output e) r) :
    ∃ s : Scheduler, r = complete (columns ++ e.copies columns)
        (answerColumns (columns ++ e.copies columns) output) s.plan.held ∧ I s.plan ∧
      s.Underway (columns ++ e.copies columns) (splitTree columns e)
        (splitTree columns e).leaves.length := by
  rw [rowsOf, splitRepeated_eq he] at h
  obtain ⟨first, hgives, h⟩ := h.first
  obtain ⟨s, rfl, hI, hs⟩ := Scheduler.run_gives (formed_splitTree he) hfirst hround hgives
  exact ⟨s, Gives.of_liftFault (h _ rfl), hI, hs⟩

/-- **Reading is all that can go wrong** with a query: what it ends with is an answer that it had,
a fault of its text, or what the rows of its expression end with. -/
theorem execute_gives {q q' : Query} {r : Except Fault (List Row)} {notices : List Notice}
    (h : CanReturn (q.execute judge) (q', r, notices)) :
    (∃ rows, q.answer = some rows ∧ r = .ok rows) ∨
      (∃ fault, tokenize q.text = .error fault ∧ r = .error fault) ∨
      ∃ tokens, tokenize q.text = .ok tokens ∧
        ((∃ fault, Expr.ofTokens q.text ⟨q.users, q.columns.length⟩ tokens = .error fault ∧
            r = .error fault) ∨
          ∃ e, Expr.ofTokens q.text ⟨q.users, q.columns.length⟩ tokens = .ok e ∧
            Gives (rowsOf judge q.columns q.output e) r) := by
  rw [execute] at h
  split at h
  · next rows hrows =>
    cases LawfulMonadAttach.eq_of_canReturn_pure h
    exact .inl ⟨rows, hrows, rfl⟩
  · split at h
    · next fault hfault =>
      cases LawfulMonadAttach.eq_of_canReturn_pure h
      exact .inr (.inl ⟨fault, hfault, rfl⟩)
    · next tokens htokens =>
      refine .inr (.inr ⟨tokens, htokens, ?_⟩)
      split at h
      · next fault hfault =>
        cases LawfulMonadAttach.eq_of_canReturn_pure h
        exact .inl ⟨fault, hfault, rfl⟩
      · next e he =>
        obtain ⟨result, hresult, h⟩ := LawfulMonadAttach.canReturn_bind_imp' h
        refine .inr ⟨e, he, ?_⟩
        split at h <;> cases LawfulMonadAttach.eq_of_canReturn_pure h <;> exact hresult

end Rows

/-! ## 4. The full product -/

theorem Expr.holds_congr {truth truth' : Leaf → Bool} : ∀ {e : Expr},
    (∀ l ∈ e.leaves, truth l = truth' l) → e.holds truth = e.holds truth'
  | leaf predicate arguments, h => h ⟨predicate, arguments⟩ (by simp [Expr.leaves])
  | node connective left right, h => by
    simp only [Expr.leaves, List.forall_mem_append] at h
    rw [Expr.holds, Expr.holds, Expr.holds_congr h.1, Expr.holds_congr h.2]

/-- The expression is true of a row: each predicate is given the spans at the numbers of its
columns. -/
def Expr.holdsOn (judge : Judge Id) (row : Row) (e : Expr) : Bool :=
  e.holds fun l => (l.predicate.holds judge (Table.pick l.arguments row)).run

/-- A row over all columns gives a predicate what its choice takes there. -/
theorem Expr.holdsOn_map {judge : Judge Id} {a : Choice} {n : Nat} {e : Expr} (he : e.Applied n) :
    e.holdsOn judge ((List.range n).map a) = e.holds (Leaf.holdsFor judge a) := by
  refine Expr.holds_congr fun l hl => ?_
  have hpick : Table.pick l.arguments ((List.range n).map a) = l.arguments.map a :=
    filterMap_eq_map fun c hc => by simp [(he l hl).2 c hc]
  rw [hpick, Leaf.holdsFor]

/-- The rows of the full product are what choices take that take every column from itself. -/
theorem forall₂_mem_iff {row : Row} :
    List.Forall₂ (fun spans span => span ∈ spans) columns row ↔
      ∃ a : Choice, TakesFrom columns (List.range columns.length) a ∧
        (List.range columns.length).map a = row := by
  have hcolumns : ((List.range columns.length).map fun c => columns[c]?.getD []) = columns := by
    refine List.ext_getElem (by simp) fun i hi hi' => ?_
    simp [List.getElem?_eq_getElem hi']
  have hrow : ∀ row, List.Forall₂ (fun spans span => span ∈ spans) columns row ↔
      List.Forall₂ (InColumn columns) (List.range columns.length) row := by
    intro row
    conv_lhs => rw [← hcolumns]
    rw [List.forall₂_map_left_iff]
    rfl
  rw [hrow]
  constructor
  · intro h
    obtain ⟨a, rfl⟩ := exists_choice List.nodup_range h.length_eq.symm
    exact ⟨a, Table.forall₂_map_iff.mp h, rfl⟩
  · rintro ⟨a, ha, rfl⟩
    exact Table.forall₂_map_iff.mpr ha

/-- **The rows of an expression are what the choices take that some tables admit**, and these tables
capture its truth: they admit no choice of which it is false, and all of which it is true. -/
theorem rowsOf_captures {judge : Judge Id} {e : Expr} (he : e.Applied columns.length)
    {output : List Nat} (hout : output.Nodup) {r : Except Fault (List Row)}
    (h : Gives (rowsOf judge columns output e) r) :
    ∃ tables rows, r = .ok rows ∧ rows.Nodup ∧
      (∀ t ∈ tables, t.Over (· ∈ (splitTree columns e).used)
        (InColumn (columns ++ e.copies columns))) ∧
      Plan.Captures (columns ++ e.copies columns) (splitTree columns e).used (fun _ => True)
        (fun a => (e.renumbered columns.length).holds (Leaf.holdsFor judge a) = true) tables ∧
      ∀ row, row ∈ rows ↔ ∃ a, Table.AnyAdmits tables a ∧
        TakesFrom (columns ++ e.copies columns)
          (answerColumns (columns ++ e.copies columns) output) a ∧
        (answerColumns (columns ++ e.copies columns) output).map a = row := by
  have hformed := formed_splitTree he
  obtain ⟨s, rfl, hexact, hs⟩ := rowsOf_gives he
    (I := Plan.Exact judge (columns ++ e.copies columns) (splitTree columns e).used fun _ => True)
    (Plan.refresh_ofTree_exact hformed)
    (fun hI hs => Plan.round_exact hs.sound hs.coherent hI) h
  obtain ⟨rows, hok, hnodup, -⟩ := complete_ok (columns ++ e.copies columns)
    (answerColumns (columns ++ e.copies columns) output) s.plan.held
  have hdistinct : (answerColumns (columns ++ e.copies columns) output).Nodup := by
    rw [answerColumns]
    split
    · exact List.nodup_range
    · exact hout
  have hover := hs.sound.proper_held.isOver
  -- what the plan holds in the end is the truth of the expression
  have hcaptures := hexact.captures hs.sound (hs.isDone_iff.mpr rfl)
  refine ⟨s.plan.held, rows, hok, hnodup, hover, hcaptures.congr fun a => ?_,
    fun row => mem_complete hover hdistinct hok⟩
  rw [Plan.holdsFor, hs.tree, splitTree, Tree.holds_ofExpr]

/-- A choice that takes every column from itself takes those of the leaves so. -/
theorem takesFrom_used {e : Expr} (he : e.Applied columns.length) {a : Choice}
    (ha : TakesFrom (columns ++ e.copies columns)
      (List.range (columns ++ e.copies columns).length) a) :
    TakesFrom (columns ++ e.copies columns) (splitTree columns e).used a :=
  fun c hc => ha c (List.mem_range.mpr (lt_of_mem_used he hc))

/-- **Without a choice of output columns, the rows of an expression are those of the full product
for which it is true.** -/
theorem rowsOf_exact {judge : Judge Id} {e : Expr} (he : e.Applied columns.length)
    {r : Except Fault (List Row)} (h : Gives (rowsOf judge columns [] e) r) :
    ∃ rows, r = .ok rows ∧ rows.Nodup ∧
      ∀ row, row ∈ rows ↔
        List.Forall₂ (fun spans span => span ∈ spans) (columns ++ e.copies columns) row ∧
          (e.renumbered columns.length).holdsOn judge row = true := by
  obtain ⟨tables, rows, hok, hnodup, -, hcaptures, hmem⟩ :=
    rowsOf_captures he List.nodup_nil h
  refine ⟨rows, hok, hnodup, fun row => ?_⟩
  rw [hmem, forall₂_mem_iff]
  constructor
  · rintro ⟨a, hadm, htakes, rfl⟩
    refine ⟨⟨a, htakes, rfl⟩, ?_⟩
    rw [answerColumns, if_pos List.isEmpty_nil, Expr.holdsOn_map (applied_split he)]
    exact hcaptures.sound a hadm
  · rintro ⟨⟨a, htakes, rfl⟩, hholds⟩
    rw [Expr.holdsOn_map (applied_split he)] at hholds
    exact ⟨a, hcaptures.complete a (takesFrom_used he htakes) trivial hholds, htakes, rfl⟩

/-- **The answer of a query that can be read is the part of the full product for which it is true**,
each row once.  The columns of the product are those of the references, and behind them a copy for
every repeated argument, from left to right; repeated arguments stand for their copies. -/
theorem answer_is_product_where_true [Pattern.Engine] (d : Document) (references : List Reference)
    (text : String) (users : List String) (judge : Judge Id) {tokens : List Token} {e : Expr}
    (htokens : tokenize text = .ok tokens)
    (hread : Expr.ofTokens text ⟨users, references.length⟩ tokens = .ok e) :
    let columns := references.map (d.spansOf false)
    ∃ rows, (execute judge { (make d references text).1 with users := users }).run.2.1 = .ok rows ∧
      rows.Nodup ∧ ∀ row, row ∈ rows ↔
        List.Forall₂ (fun spans span => span ∈ spans) (columns ++ e.copies columns) row ∧
          (e.renumbered columns.length).holdsOn judge row = true := by
  intro columns
  have hlength : columns.length = references.length := List.length_map _
  have hreturn : MonadAttach.CanReturn
      (execute judge { (make d references text).1 with users := users })
      (execute judge { (make d references text).1 with users := users }).run := rfl
  rcases execute_gives hreturn with
    ⟨rows, hnone, -⟩ | ⟨fault, hfault, -⟩ | ⟨tokens', htokens', hend⟩
  · cases hnone
  · cases htokens.symm.trans hfault
  · cases htokens.symm.trans htokens'
    have hread' : Expr.ofTokens text ⟨users, columns.length⟩ tokens = .ok e := hlength ▸ hread
    rcases hend with ⟨fault, hfault, -⟩ | ⟨e', he', hrows⟩
    · cases hread'.symm.trans hfault
    · cases hread'.symm.trans he'
      exact rowsOf_exact (Expr.applied_ofTokens hread') hrows

/-- Two different spans of one reference, in either order: the repeated column has a copy. -/
theorem answer_is_product_where_true_before :
    let d := Document.ofString "aba" false
    let judge : Judge Id := fun _ _ => false
    let columns := [Reference.literal "a"].map (d.spansOf false)
    let e := Expr.node .disjunction (.leaf (.relation .before) [0, 0]) (.leaf (.user "never") [0])
    ∃ rows, (execute judge { (make d [.literal "a"] "before(0, 0) or never(0)").1 with
        users := ["never"] }).run.2.1 = .ok rows ∧
      rows.Nodup ∧ ∀ row, row ∈ rows ↔
        List.Forall₂ (fun spans span => span ∈ spans) (columns ++ e.copies columns) row ∧
          (e.renumbered columns.length).holdsOn judge row = true := by
  intro d judge columns e
  let tokens : List Token := [.name "before", .opening, .number 0, .comma, .number 0, .closing,
    .disjunction, .name "never", .opening, .number 0, .closing]
  have htokens : tokenize "before(0, 0) or never(0)" = .ok tokens := rfl
  have hread : Expr.ofTokens "before(0, 0) or never(0)" ⟨["never"], 1⟩ tokens = .ok e := rfl
  exact answer_is_product_where_true d [.literal "a"] _ ["never"] judge htokens hread

/-! ## 5. Every evaluation ends -/

/-- **What is left of an evaluation after so many rounds**: exactly the leaves that have not been
evaluated wait, each once, in the order of the estimates that the plan has for them; a node is
finished when all leaves below it have been evaluated, and the root when there have been as many
rounds as leaves. -/
structure Scheduler.Left (t : Tree) (n : Nat) (s : Scheduler) : Prop where
  order : InOrder s.pending
  entries : ∀ a, a ∈ s.pending ↔ a ∈ s.plan.estimates
  numbers : (s.pending.map Prod.snd).Perm s.plan.unevaluated
  distinct : s.plan.unevaluated.Nodup
  leaves : s.plan.unevaluated.Sublist t.leafNumbers
  count : s.plan.unevaluated.length + n = t.leaves.length
  finished : ∀ {outer : List Plan} {q : Plan}, Plan.Above s.plan outer q →
    (q.isDone = true ↔ q.unevaluated = [])
  ended : s.plan.isDone = true ↔ n = t.leaves.length

theorem Scheduler.Underway.left {t : Tree} {n : Nat} {s : Scheduler}
    (h : s.Underway columns t n) : s.Left t n where
  order := h.coherent.order
  entries := h.coherent.mem
  numbers := by
    rw [Plan.unevaluated, ← h.settled.map_snd_estimatesFrom 0]
    exact h.coherent.perm.map Prod.snd
  distinct := nodup_of_pairwise_lt (Plan.pairwise_unevaluatedFrom 0 s.plan).1
  leaves := h.numbers
  count := h.remaining
  finished hq := (h.settled.of_above hq).isDone_iff 0
  ended := h.isDone_iff

/-- **A step takes its first entry**: the leaf that it names had not been evaluated, and no other one
is evaluated by it. -/
def Scheduler.TakesFirst (s s' : Scheduler) : Prop :=
  ∃ e i, s.pending = (e, i) :: s'.pending ∧ i ∈ s.plan.unevaluated ∧
    s'.plan.unevaluated = s.plan.unevaluated.erase i

/-- **A step of a scheduler whose plan is not finished** evaluates one leaf that had not been
evaluated, and the update behind it does not fail. -/
theorem Scheduler.Underway.step_gives {m : Type → Type} [Monad m] [LawfulMonad m] [MonadAttach m]
    [LawfulMonadAttach m] {judge : Judge m} {t : Tree} {n : Nat} {s : Scheduler}
    (h : s.Underway columns t n) (hn : n < t.leaves.length) {r : Except Fault Scheduler}
    (hr : Gives (s.step judge columns) r) :
    ∃ s', r = .ok s' ∧ s.TakesFirst s' ∧ ∃ s'', s'.update columns = .ok s'' := by
  rcases Scheduler.step_gives h.sound h.coherent hr with
    ⟨-, hnone⟩ | ⟨e, i, s', _, hok, hfirst, heval, htakes, hc⟩
  · have := h.isDone_iff.mp (h.pending_eq_nil_iff.mp hnone)
    omega
  · obtain ⟨s'', _, hupdate, -⟩ := Scheduler.update_gives (heval.sound h.sound) hc
    have hmem : i ∈ s.plan.unevaluated := h.left.numbers.mem_iff.mp (by simp [hfirst])
    exact ⟨s', hok, ⟨e, i, hfirst, hmem, htakes.unevaluated_eq_erase⟩, s'', hupdate⟩

/-- **Nothing fails in an evaluation.**  For every tree and whatever the user's predicates answer,
the first update and every round behind it end with a scheduler, until as many rounds have evaluated
as many leaves; and a query ends with a fault only if its text cannot be read. -/
theorem evaluation_is_total {σ : Type} (judge : Judge (StateM σ)) (columns : List (List Span)) :
    (∀ {t : Tree}, t.Formed → ∀ n ≤ t.leaves.length, ∀ user : σ,
      ∃ s, endFrom (Scheduler.rounds judge columns t n) user = .ok s ∧ s.Left t n ∧
        (n < t.leaves.length → ∀ user : σ,
          ∃ s', endFrom (s.step judge columns) user = .ok s' ∧ s.TakesFirst s' ∧
            ∃ s'', s'.update columns = .ok s'')) ∧
      ∀ (q : Query) (user : σ) (fault : Fault),
        ((execute judge q).run user).run.1.2.1 = .error fault →
        tokenize q.text = .error fault ∨
          ∃ tokens, tokenize q.text = .ok tokens ∧
            Expr.ofTokens q.text ⟨q.users, q.columns.length⟩ tokens = .error fault := by
  constructor
  · intro t ht n hn user
    rcases Scheduler.rounds_gives ht
        (gives_endFrom (Scheduler.rounds judge columns t n) user) with ⟨hlt, -⟩ | ⟨s, hok, hs⟩
    · omega
    · exact ⟨s, hok, hs.left, fun hlt user => hs.step_gives hlt (gives_endFrom _ user)⟩
  · intro q user fault hfault
    have hreturn : MonadAttach.CanReturn (execute judge q) ((execute judge q).run user).run.1 :=
      ⟨user, ((execute judge q).run user).run.2, rfl⟩
    rcases execute_gives hreturn with
      ⟨rows, -, hok⟩ | ⟨e, he, hend⟩ | ⟨tokens, htokens, ⟨e, he, hend⟩ | ⟨e, he, hrows⟩⟩
    · cases hfault.symm.trans hok
    · cases hfault.symm.trans hend
      exact .inl he
    · cases hfault.symm.trans hend
      exact .inr ⟨tokens, htokens, he⟩
    · obtain ⟨s, hend, -⟩ := rowsOf_gives (Expr.applied_ofTokens he) (I := fun _ => True)
        (fun _ => trivial) (fun _ _ _ => trivial) hrows
      obtain ⟨rows, hok, -⟩ := complete_ok (q.columns ++ e.copies q.columns)
        (answerColumns (q.columns ++ e.copies q.columns) q.output) s.plan.held
      cases hfault.symm.trans (hend.trans hok)

/-- One of two leaves has been evaluated, by a predicate that counts its answers; and a text that
ends too early is not a query. -/
theorem evaluation_is_total_counting :
    let judge : Judge (StateM Nat) := fun _ _ n => (n % 2 = 0, n + 1)
    let span : Span := ⟨0, 1, 0, by decide⟩
    let t := Tree.node .disjunction
      [.leaf ⟨.user "every other", [0]⟩, .leaf ⟨.user "every other", [1, 0]⟩]
    let q : Query := { text := "(", columns := [[span], [span, span]] }
    (∃ s, endFrom (Scheduler.rounds judge q.columns t 1) 0 = .ok s ∧ s.Left t 1 ∧
      (1 < t.leaves.length → ∀ user : Nat,
        ∃ s', endFrom (s.step judge q.columns) user = .ok s' ∧ s.TakesFirst s' ∧
          ∃ s'', s'.update q.columns = .ok s'')) ∧
      (tokenize q.text = .error (.query "(" .endsBeforePredicate) ∨
        ∃ tokens, tokenize q.text = .ok tokens ∧
          Expr.ofTokens q.text ⟨q.users, q.columns.length⟩ tokens =
            .error (.query "(" .endsBeforePredicate)) := by
  intro judge span t q
  obtain ⟨htrees, hqueries⟩ := evaluation_is_total judge q.columns
  exact ⟨htrees (.node (by simp) (by simp [Tree.Formed.leaf])) 1 (by decide) 0,
    hqueries q 0 _ (by cbv)⟩

end TaggedText.Query
