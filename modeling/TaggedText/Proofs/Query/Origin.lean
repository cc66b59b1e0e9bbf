/-
# Where the spans of an answer come from

A query makes no spans.  It is made with columns, and whatever is asked of it, the rows of its answer
take their spans from these: the copies of repeated columns hold nothing else, and a row is what a
choice takes that takes every column from itself (`rowsOf_fromColumns`).  A query that has been
answered keeps its answer, so the same is true of one that was run before (`Posed.mem_reference`).
-/
import TaggedText.Proofs.Query.Answer

namespace TaggedText.Query

open MonadAttach (CanReturn)

variable {columns : List (List Span)}

/-! ## 1. Rows -/

/-- All spans of some rows are spans of some columns. -/
def FromColumns (columns : List (List Span)) (rows : List Row) : Prop :=
  ∀ row ∈ rows, ∀ a ∈ row, ∃ spans ∈ columns, a ∈ spans

/-- A column and its copies hold spans of the columns. -/
theorem exists_of_inColumn_copies {e : Expr} {c : Nat} {a : Span}
    (h : InColumn (columns ++ e.copies columns) c a) : ∃ spans ∈ columns, a ∈ spans := by
  have hcolumn : ∀ {i : Nat}, a ∈ columns[i]?.getD [] → ∃ spans ∈ columns, a ∈ spans := by
    intro i ha
    cases hspans : columns[i]? with
    | none =>
      rw [hspans] at ha
      cases ha
    | some spans =>
      rw [hspans] at ha
      exact ⟨spans, List.mem_of_getElem? hspans, ha⟩
  unfold InColumn at h
  by_cases hc : c < columns.length
  · rw [List.getElem?_append_left hc] at h
    exact hcolumn h
  · rw [List.getElem?_append_right (Nat.le_of_not_lt hc), Expr.copies, List.getElem?_map] at h
    cases hcopy : e.repeats[c - columns.length]? with
    | none =>
      rw [hcopy] at h
      cases h
    | some i =>
      rw [hcopy] at h
      exact hcolumn h

section Rows

variable {m : Type → Type} [Monad m] [LawfulMonad m] [MonadAttach m] [LawfulMonadAttach m]
variable {judge : Judge m}

/-- **The rows of an expression are made of spans of the columns.** -/
theorem rowsOf_fromColumns {e : Expr} (he : e.Applied columns.length) {output : List Nat}
    (hout : output.Nodup) {rows : List Row} (h : Gives (rowsOf judge columns output e) (.ok rows)) :
    FromColumns columns rows := by
  obtain ⟨s, hrows, -, hs⟩ := rowsOf_gives he (I := fun _ => True) (fun _ => trivial)
    (fun _ _ _ => trivial) h
  have hdistinct : (answerColumns (columns ++ e.copies columns) output).Nodup := by
    rw [answerColumns]
    split
    · exact List.nodup_range
    · exact hout
  intro row hrow a ha
  obtain ⟨choice, -, htakes, rfl⟩ :=
    (mem_complete hs.sound.proper_held.isOver hdistinct hrows.symm).mp hrow
  obtain ⟨c, hc, rfl⟩ := List.mem_map.mp ha
  exact exists_of_inColumn_copies (htakes c hc)

end Rows

/-! ## 2. Queries -/

/-- What can become of a query on some references: it is made, told of the predicates of the user
and of the columns that are asked for, and run, in any order and any number of times. -/
inductive Posed [Pattern.Engine] (d : Document) (references : List Reference) : Query → Prop where
  | make (text : String) : Posed d references (make d references text).1
  | users {q : Query} (users : List String) (h : Posed d references q) :
    Posed d references { q with users := users }
  | project {q q' : Query} {output : List Nat} (h : Posed d references q)
    (hproject : q.project output = .ok q') : Posed d references q'
  | execute {q : Query} {σ : Type} (judge : Judge (StateM σ)) (s : σ) (h : Posed d references q) :
    Posed d references ((q.execute judge).run s).run.1.1

/-- A query that is asked for columns is asked for different ones, and its answer is made of spans of
its columns. -/
structure Sound (columns : List (List Span)) (q : Query) : Prop where
  source : q.columns = columns
  distinct : q.output.Nodup
  answer : ∀ rows, q.answer = some rows → FromColumns columns rows

/-- Only different columns can be asked for. -/
theorem nodup_of_project {q q' : Query} {output : List Nat} (h : q.project output = .ok q') :
    q' = q ∨ q' = { q with output := output } ∧ output.Nodup := by
  unfold project at h
  split at h
  · cases h
  · next hnot =>
    cases h
    split
    · exact .inl rfl
    · have hlength : output.eraseDups.length = output.length :=
        Classical.byContradiction fun hne => hnot (.inl hne)
      exact .inr ⟨rfl, (eraseDups_sublist output).eq_of_length hlength ▸ nodup_eraseDups output⟩

/-- Running a query changes no more of it than how far it has got and its answer. -/
theorem execute_keeps {m : Type → Type} [Monad m] [LawfulMonad m] [MonadAttach m]
    [LawfulMonadAttach m] {judge : Judge m} {q q' : Query} {r : Except Fault (List Row)}
    {notices : List Notice} (h : CanReturn (q.execute judge) (q', r, notices)) :
    q'.columns = q.columns ∧ q'.output = q.output ∧
      ∀ rows, q'.answer = some rows → q.answer = some rows ∨ r = .ok rows := by
  rw [execute] at h
  split at h
  · cases LawfulMonadAttach.eq_of_canReturn_pure h
    exact ⟨rfl, rfl, fun _ => .inl⟩
  · split at h
    · cases LawfulMonadAttach.eq_of_canReturn_pure h
      exact ⟨rfl, rfl, fun _ => .inl⟩
    · split at h
      · cases LawfulMonadAttach.eq_of_canReturn_pure h
        exact ⟨rfl, rfl, fun _ => .inl⟩
      · obtain ⟨result, -, h⟩ := LawfulMonadAttach.canReturn_bind_imp' h
        split at h
        · cases LawfulMonadAttach.eq_of_canReturn_pure h
          exact ⟨rfl, rfl, fun _ => .inl⟩
        · cases LawfulMonadAttach.eq_of_canReturn_pure h
          refine ⟨rfl, rfl, fun rows hrows => .inr ?_⟩
          cases hrows
          rfl

/-- **Running a query gives an answer made of spans of its columns**, and the query keeps that
answer. -/
theorem Sound.execute {q q' : Query} (h : Sound columns q) {σ : Type} (judge : Judge (StateM σ))
    (s : σ) {r : Except Fault (List Row)} {notices : List Notice}
    (hrun : ((q.execute judge).run s).run.1 = (q', r, notices)) :
    Sound columns q' ∧ ∀ rows, r = .ok rows → FromColumns columns rows := by
  have hreturn : CanReturn (q.execute judge) (q', r, notices) :=
    ⟨s, ((q.execute judge).run s).run.2, Prod.ext hrun rfl⟩
  obtain ⟨hcolumns, houtput, hanswer⟩ := execute_keeps hreturn
  have hrows : ∀ rows, r = .ok rows → FromColumns columns rows := by
    rintro rows rfl
    rcases execute_gives hreturn with
      ⟨rows', hsome, hok⟩ | ⟨fault, -, hfault⟩ | ⟨tokens, -, ⟨fault, -, hfault⟩ | ⟨e, he, hgives⟩⟩
    · cases hok
      exact h.answer rows hsome
    · cases hfault
    · cases hfault
    · exact h.source ▸ rowsOf_fromColumns (Expr.applied_ofTokens he) h.distinct hgives
  exact ⟨⟨hcolumns.trans h.source, houtput ▸ h.distinct, fun rows hsome =>
    (hanswer rows hsome).elim (h.answer rows) (hrows rows)⟩, hrows⟩

/-- **Whatever is asked of a query, its answer is made of spans of its columns.** -/
theorem Posed.sound [Pattern.Engine] {d : Document} {references : List Reference} {q : Query}
    (h : Posed d references q) : Sound (references.map (d.spansOf false)) q := by
  induction h with
  | make text => exact ⟨rfl, List.nodup_nil, fun rows hnone => by cases hnone⟩
  | users users h ih => exact ⟨ih.source, ih.distinct, ih.answer⟩
  | project h hproject ih =>
    rcases nodup_of_project hproject with rfl | ⟨rfl, hdistinct⟩
    · exact ih
    · exact ⟨ih.source, hdistinct, ih.answer⟩
  | execute judge s h ih => exact (ih.execute judge s rfl).1

/-- **The spans of an answer are spans of the references** that the query is on. -/
theorem Posed.mem_reference [Pattern.Engine] {d : Document} {references : List Reference}
    {q : Query} (h : Posed d references q) {σ : Type} (judge : Judge (StateM σ)) (s : σ) {rows : List Row}
    (hrows : ((q.execute judge).run s).run.1.2.1 = .ok rows) {row : Row} (hrow : row ∈ rows)
    {a : Span} (ha : a ∈ row) : ∃ r ∈ references, a ∈ d.spansOf false r := by
  have hfrom : FromColumns (references.map (d.spansOf false)) rows :=
    (h.sound.execute judge s rfl).2 rows hrows
  obtain ⟨spans, hspans, ha⟩ := hfrom row hrow a ha
  obtain ⟨r, hr, rfl⟩ := List.mem_map.mp hspans
  exact ⟨r, hr, ha⟩

end TaggedText.Query
