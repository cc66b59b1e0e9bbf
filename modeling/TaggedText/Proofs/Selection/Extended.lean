/-
# What an extended selection gives

An extended selection checks its columns first.  No list of them may have a column twice; the added
columns must be the arguments that the rows lack, and there must be a list for each of them.  It
fails with one of two codes exactly when this is not so, the repeated columns first.

Otherwise a combination of an existing row with one span from each added list is read as a choice of
one span for every column, and **the answer has what the accepted choices take at its columns**, in
the order in which the combinations are tried (`extend_keeps_combinations`).
-/
import TaggedText.Proofs.Selection.Combinations
import TaggedText.Proofs.Query.Leaf
import Mathlib.Data.Set.List

namespace TaggedText.Selection

open Query

/-! ## 1. The check of the columns -/

namespace Columns

variable {c : Columns}

/-- One of the lists has a column twice. -/
def Repeats (c : Columns) : Prop := ¬ c.arguments.Nodup ∨ ¬ c.rows.Nodup ∨ ¬ c.added.Nodup

/-- The added columns are the arguments that the rows lack. -/
def AddsMissing (c : Columns) : Prop :=
  ∀ column, column ∈ c.added ↔ column ∈ c.arguments ∧ column ∉ c.rows

theorem fits_iff : c.Fits ↔ ¬ c.Repeats ∧ c.AddsMissing := by
  simp only [Repeats, not_or, not_not]
  constructor
  · intro h
    exact ⟨⟨h.arguments, h.rows, h.added⟩, h.missing⟩
  · rintro ⟨⟨harguments, hrows, hadded⟩, hmissing⟩
    exact ⟨harguments, hrows, hadded, hmissing⟩

theorem nodup_of_distinct {columns : List Nat} (h : distinct columns = true) :
    columns.Nodup := by
  rw [distinct, beq_iff_eq] at h
  rw [← (eraseDups_sublist columns).eq_of_length h]
  exact nodup_eraseDups columns

theorem output_of_repeats (h : c.Repeats) :
    c.output = .error (.selectionTwice c.rows c.added c.arguments) := by
  rw [output, if_pos]
  by_contra hdistinct
  simp only [Bool.not_eq_true', Bool.not_eq_false, Bool.and_eq_true] at hdistinct
  obtain ⟨⟨harguments, hrows⟩, hadded⟩ := hdistinct
  rcases h with h | h | h
  · exact h (nodup_of_distinct harguments)
  · exact h (nodup_of_distinct hrows)
  · exact h (nodup_of_distinct hadded)

theorem output_of_not_addsMissing (h : ¬ c.Repeats) (hmissing : ¬ c.AddsMissing) :
    c.output = .error (.wrongAdded c.added) := by
  simp only [Repeats, not_or, not_not] at h
  obtain ⟨harguments, hrows, hadded⟩ := h
  rw [output, if_neg (by simp [distinct_of_nodup, harguments, hrows, hadded]), if_neg]
  intro hall
  simp only [Bool.and_eq_true, List.all_eq_true, List.contains_iff_mem] at hall
  refine hmissing fun column => ?_
  have hiff : column ∈ (c.arguments.filter fun column => !c.rows.contains column) ↔
      column ∈ c.added := ⟨hall.1 column, hall.2 column⟩
  rw [← hiff]
  simp

end Columns

/-! ## 2. The run -/

/-- **An extended selection without its faults**: the check of the columns, the number of lists, and
then the test, asked about every candidate once and in order. -/
theorem run_extend {m : Type → Type} [Monad m] [LawfulMonad m] (test : Row → m Bool)
    (rows : List Row) (lists : List (List Span)) (c : Columns) :
    (extend test rows lists c).run =
      match c.output with
      | .error clash => pure (.error clash)
      | .ok output =>
        if lists.length ≠ c.added.length then
          pure (.error (.wrongCount lists.length c.added))
        else do
          let kept ← keep (fun (row, chosen) =>
            test ((c.arguments.map c.source).filterMap (Source.span? row chosen)))
            (candidates rows lists)
          return .ok (output, kept.map fun (row, chosen) =>
            (output.map c.source).filterMap (Source.span? row chosen)) := by
  have hlift : ∀ e : Except Clash (List Nat),
      (liftM e : ExceptT Clash m (List Nat)).run = pure e := fun _ => rfl
  rw [extend, ExceptT.run_bind, hlift, pure_bind]
  cases c.output with
  | error clash => rfl
  | ok output =>
    by_cases hcount : lists.length = c.added.length
    · simp [hcount, Except.map]
    · simp [hcount]

/-- Every candidate is what some choice takes at the columns of the rows and at the added ones. -/
theorem exists_choices {rows : List Row} {lists : List (List Span)} {c : Columns} (hc : c.Fits)
    (hrows : ∀ row ∈ rows, row.length = c.rows.length) (hlists : lists.length = c.added.length) :
    ∃ choices : List Choice,
      choices.map (fun a => (c.rows.map a, c.added.map a)) = candidates rows lists := by
  have htaken : ∀ candidate ∈ candidates rows lists,
      candidate ∈ Set.range fun a : Choice => (c.rows.map a, c.added.map a) := by
    rintro ⟨row, chosen⟩ hcandidate
    obtain ⟨hrow, hchosen⟩ := mem_candidates.mp hcandidate
    obtain ⟨a, rfl⟩ := exists_choice hc.rows (hrows row hrow)
    obtain ⟨b, rfl⟩ := exists_choice hc.added (hchosen.length_eq.symm.trans hlists)
    have hdisjoint : ∀ column ∈ c.rows, column ∈ c.added → a column = b column :=
      fun column hr ha => absurd hr ((hc.missing column).mp ha).2
    refine ⟨Choice.glue c.rows a b, ?_⟩
    simp only [Choice.map_glue_left, Choice.map_glue_right hdisjoint]
  rw [← Set.mem_range, Set.range_list_map]
  exact htaken

/-! ## 3. The answer -/

/-- What a selection with a test without effects gives. -/
def extended (test : Row → Bool) (rows : List Row) (lists : List (List Span)) (c : Columns) :
    Except Clash (List Nat × List Row) :=
  Id.run (extend (fun row => pure (test row)) rows lists c).run

variable {test : Row → Bool} {rows : List Row} {lists : List (List Span)} {c : Columns}

theorem extended_of_repeats (h : c.Repeats) :
    extended test rows lists c = .error (.selectionTwice c.rows c.added c.arguments) := by
  rw [extended, run_extend, Columns.output_of_repeats h]
  rfl

theorem extended_of_clash (h : ¬ c.Repeats)
    (hclash : ¬ c.AddsMissing ∨ lists.length ≠ c.added.length) :
    ∃ clash, extended test rows lists c = .error clash ∧ clash.code = 110802 := by
  rw [extended, run_extend]
  by_cases hmissing : c.AddsMissing
  · have hcount := hclash.resolve_left (not_not.mpr hmissing)
    rw [(Columns.fits_iff.mpr ⟨h, hmissing⟩).output]
    exact ⟨.wrongCount lists.length c.added, if_pos hcount, rfl⟩
  · rw [Columns.output_of_not_addsMissing h hmissing]
    exact ⟨.wrongAdded c.added, rfl, rfl⟩

/-- **Without a clash the answer has what the accepted choices take at its columns.** -/
theorem extended_of_choices (hc : c.Fits) (hcount : lists.length = c.added.length)
    {choices : List Choice}
    (hchoices : choices.map (fun a => (c.rows.map a, c.added.map a)) = candidates rows lists) :
    extended test rows lists c = .ok ((c.rows ++ c.added).mergeSort,
      (choices.filter fun a => test (c.arguments.map a)).map
        fun a => (c.rows ++ c.added).mergeSort.map a) := by
  have harguments : ∀ column ∈ c.arguments, column ∈ c.rows ∨ column ∈ c.added := by
    intro column ha
    by_cases hr : column ∈ c.rows
    · exact .inl hr
    · exact .inr ((hc.missing column).mpr ⟨ha, hr⟩)
  have houtput : ∀ column ∈ (c.rows ++ c.added).mergeSort,
      column ∈ c.rows ∨ column ∈ c.added := by simp
  have haccepts : ∀ a : Choice, test ((c.arguments.map c.source).filterMap
      (Source.span? (c.rows.map a) (c.added.map a))) = test (c.arguments.map a) := fun a => by
    rw [c.filterMap_span?_source a harguments]
  have hlaid : ∀ a : Choice, ((c.rows ++ c.added).mergeSort.map c.source).filterMap
      (Source.span? (c.rows.map a) (c.added.map a)) = (c.rows ++ c.added).mergeSort.map a :=
    fun a => c.filterMap_span?_source a houtput
  rw [extended, run_extend, hc.output]
  simp only [hcount, ne_eq, not_true_eq_false, if_false, ← hchoices, keep_pure, List.filter_map,
    Id.run, pure_bind, Function.comp_def, List.map_map, haccepts, hlaid]
  rfl

/-- What becomes of a selection, by the check of its columns. -/
theorem extended_cases (test : Row → Bool) {rows : List Row} (lists : List (List Span))
    (c : Columns) (hrows : ∀ row ∈ rows, row.length = c.rows.length) :
    (c.Repeats ∧ ∃ clash, extended test rows lists c = .error clash ∧ clash.code = 110801) ∨
    (¬ c.Repeats ∧ (¬ c.AddsMissing ∨ lists.length ≠ c.added.length) ∧
      ∃ clash, extended test rows lists c = .error clash ∧ clash.code = 110802) ∨
    (c.Fits ∧ lists.length = c.added.length ∧ ∃ choices : List Choice,
      choices.map (fun a => (c.rows.map a, c.added.map a)) = candidates rows lists ∧
      extended test rows lists c = .ok ((c.rows ++ c.added).mergeSort,
        (choices.filter fun a => test (c.arguments.map a)).map
          fun a => (c.rows ++ c.added).mergeSort.map a)) := by
  by_cases hrepeats : c.Repeats
  · exact .inl ⟨hrepeats, _, extended_of_repeats hrepeats, rfl⟩
  · right
    by_cases hgood : c.AddsMissing ∧ lists.length = c.added.length
    · obtain ⟨hmissing, hcount⟩ := hgood
      have hc := Columns.fits_iff.mpr ⟨hrepeats, hmissing⟩
      obtain ⟨choices, hchoices⟩ := exists_choices hc hrows hcount
      exact .inr ⟨hc, hcount, choices, hchoices, extended_of_choices hc hcount hchoices⟩
    · have hclash := not_and_or.mp hgood
      exact .inl ⟨hrepeats, hclash, extended_of_clash hrepeats hclash⟩

/-- **What an extended selection answers.**  A combination gives every column one span, so it is
read as a choice. -/
structure Answers (test : Row → Bool) (rows : List Row) (lists : List (List Span)) (c : Columns)
    (given : Except Clash (List Nat × List Row)) : Prop where
  /-- The first code stands for a column that comes twice in one of the lists. -/
  repeats : (∃ clash, given = .error clash ∧ clash.code = 110801) ↔ c.Repeats
  /-- The other one, without such a column, for added columns that are not the missing ones, and
  for a wrong number of lists. -/
  clashes : (∃ clash, given = .error clash ∧ clash.code = 110802) ↔
    ¬ c.Repeats ∧ (¬ c.AddsMissing ∨ lists.length ≠ c.added.length)
  /-- Otherwise every existing row is combined with one span from each list, the rows running
  slowest and the last list fastest; the answer has what the combinations whose arguments the test
  accepts take at all columns, which are put in increasing order. -/
  found : ¬ c.Repeats → c.AddsMissing → lists.length = c.added.length →
    ∃ (output : List Nat) (choices : List Choice),
      output.Pairwise (· < ·) ∧
      (∀ column, column ∈ output ↔ column ∈ c.rows ∨ column ∈ c.added) ∧
      choices.map (fun a => (c.rows.map a, c.added.map a)) =
        (rows.flatMap fun row => (nested lists).map fun chosen => (row, chosen)) ∧
      given = .ok (output, (choices.filter fun a => test (c.arguments.map a)).map fun a =>
        output.map a)

/-- **An extended selection keeps the combinations that its test accepts**, or fails when its
columns clash. -/
theorem extend_keeps_combinations (test : Row → Bool) {rows : List Row}
    (lists : List (List Span)) (c : Columns) (hrows : ∀ row ∈ rows, row.length = c.rows.length) :
    Answers test rows lists c (extended test rows lists c) := by
  rcases extended_cases test lists c hrows with
    ⟨hrepeats, clash, hgiven, hcode⟩ | ⟨hrepeats, hclash, clash, hgiven, hcode⟩ |
    ⟨hc, hcount, choices, hchoices, hgiven⟩
  · exact ⟨by simp [hgiven, hcode, hrepeats], by simp [hgiven, hcode, hrepeats],
      fun h => absurd hrepeats h⟩
  · refine ⟨by simp [hgiven, hcode, hrepeats], by simp [hgiven, hcode, hrepeats, hclash], ?_⟩
    intro _ hmissing hcount
    rcases hclash with h | h
    · exact absurd hmissing h
    · exact absurd hcount h
  · obtain ⟨hrepeats, hmissing⟩ := Columns.fits_iff.mp hc
    refine ⟨by simp [hgiven, hrepeats], by simp [hgiven, hmissing, hcount], fun _ _ _ => ?_⟩
    have hnodup : (c.rows ++ c.added).Nodup := List.nodup_append.mpr
      ⟨hc.rows, hc.added, fun column hr column' ha heq =>
        ((hc.missing column').mp ha).2 (heq ▸ hr)⟩
    exact ⟨(c.rows ++ c.added).mergeSort, choices, pairwise_lt_mergeSort hnodup, by simp,
      hchoices.trans (candidates_eq rows lists), hgiven⟩

/-- Arguments, rows and added columns come in different orders.  One combination is accepted: the
second row, with the second span of the one list and the first of the other. -/
theorem extend_keeps_combinations_permuted :
    let a : Span := ⟨0, 1, 0, by decide⟩
    let b : Span := ⟨2, 3, 0, by decide⟩
    let c : Span := ⟨4, 5, 0, by decide⟩
    let rows : List Row := [[b, a], [a, c]]
    let lists : List (List Span) := [[a, b], [c, b]]
    let columns : Columns := ⟨[3, 5, 1], [3, 0], [5, 1]⟩
    (∀ row ∈ rows, row.length = columns.rows.length) ∧
      extended Row.seqBefore rows lists columns = .ok ([0, 1, 3, 5], [[c, c, a, b]]) ∧
      Answers Row.seqBefore rows lists columns (extended Row.seqBefore rows lists columns) := by
  intro a b c rows lists columns
  have hrows : ∀ row ∈ rows, row.length = columns.rows.length := by decide
  exact ⟨hrows, by cbv, extend_keeps_combinations Row.seqBefore lists columns hrows⟩

end TaggedText.Selection
