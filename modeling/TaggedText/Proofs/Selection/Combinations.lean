/-
# The combinations that a selection tries

A selection goes through the index vectors of its lists in lexicographic order and meets each of
them once; the counter comes to its end by itself.  What is made of the rows that the test accepts
stands in this order (`select_goes_through_product`).

An extended selection tries, for every row that exists, the rows of the product of the added lists
(`candidates_eq`).
-/
import TaggedText.Proofs.Selection

namespace TaggedText.Selection

/-! ## 1. Index vectors -/

/-- **The readings of a counter are in lexicographic order.** -/
theorem pairwise_grid (radices : List Nat) : (grid radices).Pairwise (· < ·) := by
  induction radices with
  | nil => simp [grid]
  | cons radix radices ih =>
    rw [grid, List.pairwise_flatMap]
    refine ⟨fun digit _ => ?_, ?_⟩
    · -- the later digits decide where the first ones are equal
      rw [List.pairwise_map]
      exact ih.imp fun h => List.cons_lt_cons_iff.mpr (.inr ⟨rfl, h⟩)
    · refine List.pairwise_lt_range.imp fun {digit digit'} hlt => ?_
      simp only [List.forall_mem_map]
      exact fun _ _ _ _ => List.cons_lt_cons_iff.mpr (.inl hlt)

/-! ## 2. Rows in nested order -/

/-- The rows with one span from each list, the last list running fastest. -/
def nested : List (List Span) → List Row
  | [] => [[]]
  | spans :: lists => spans.flatMap fun span => (nested lists).map (span :: ·)

theorem nested_eq_nil {lists : List (List Span)} (h : [] ∈ lists) : nested lists = [] := by
  induction lists with
  | nil => simp at h
  | cons spans lists ih =>
    rcases List.mem_cons.mp h with rfl | h
    · simp [nested]
    · simp [nested, ih h]

theorem choose_cons {spans : List Span} {lists : List (List Span)} {digit : Nat}
    {digits : List Nat} (h : digit < spans.length) :
    choose (spans :: lists) (digit :: digits) = spans[digit] :: choose lists digits := by
  simp [choose, List.getElem?_eq_getElem h]

/-- Going through the places of a list is going through its members. -/
theorem flatMap_range {α β : Type} {l : List α} {f : Nat → List β} {g : α → List β}
    (h : ∀ i, (hi : i < l.length) → f i = g l[i]) :
    (List.range l.length).flatMap f = l.flatMap g := by
  induction l generalizing f with
  | nil => simp
  | cons a l ih =>
    have hrest := ih (f := fun i => f (i + 1)) fun i hi => h (i + 1) (by simpa using hi)
    rw [List.length_cons, List.range_succ_eq_map, List.flatMap_cons, List.flatMap_map, hrest,
      h 0 (by simp)]
    rfl

/-- **The index vectors in order choose the rows in nested order.** -/
theorem map_choose_grid (lists : List (List Span)) :
    (grid (lists.map List.length)).map (choose lists) = nested lists := by
  induction lists with
  | nil => rfl
  | cons spans lists ih =>
    rw [List.map_cons, grid, List.map_flatMap, nested]
    refine flatMap_range fun digit hdigit => ?_
    rw [List.map_map, ← ih, List.map_map]
    exact List.map_congr_left fun digits _ => choose_cons hdigit

/-- The rows of a product are in nested order. -/
theorem product_eq_nested {lists : List (List Span)} (h : lists ≠ []) :
    product lists = nested lists := by
  rw [product, readings_eq_grid (by simpa using h), map_choose_grid]

/-- Index vectors below the lengths of lists choose one span from each list. -/
theorem map_some_choose {lists : List (List Span)} {digits : List Nat}
    (h : List.Forall₂ (· < ·) digits (lists.map List.length)) :
    (choose lists digits).map some = List.zipWith (fun spans i => spans[i]?) lists digits := by
  induction lists generalizing digits with
  | nil => rfl
  | cons spans lists ih =>
    rcases h with _ | ⟨hdigit, hdigits⟩
    rw [choose_cons hdigit, List.map_cons, ih hdigits, List.zipWith_cons_cons,
      List.getElem?_eq_getElem hdigit]

/-! ## 3. Selecting -/

/-- **The index vectors of lists, each once and in lexicographic order**, so that the last list runs
fastest, with the rows that they choose. -/
structure GoesThrough (lists : List (List Span)) (vectors : List (List Nat)) (rows : List Row) :
    Prop where
  ordered : vectors.Pairwise (· < ·)
  mem_iff : ∀ vector, vector ∈ vectors ↔ List.Forall₂ (· < ·) vector (lists.map List.length)
  chosen : List.Forall₂
    (fun vector row => row.map some = List.zipWith (fun spans i => spans[i]?) lists vector)
    vectors rows

theorem goesThrough_grid (lists : List (List Span)) :
    GoesThrough lists (grid (lists.map List.length)) (nested lists) where
  ordered := pairwise_grid (lists.map List.length)
  mem_iff _ := mem_grid
  chosen := by
    rw [← map_choose_grid, List.forall₂_map_right_iff, List.forall₂_same]
    exact fun _ hvector => map_some_choose (mem_grid.mp hvector)

/-- **A selection goes through the product of its lists**: its counter meets every index vector
below the lengths of the lists once, in lexicographic order, and comes to its end by itself; what
the aggregate makes of the rows that the test accepts stands in this order.  Nothing is made when
one of the lists is empty. -/
theorem select_goes_through_product {α : Type} (test : Row → Bool) (aggregate : Row → α)
    {lists : List (List Span)} (h : lists ≠ []) :
    let radices := lists.map List.length
    let selected : List α :=
      Id.run (selectWith (fun row => pure (test row)) (fun row => pure (aggregate row)) lists)
    (∃ rows, GoesThrough lists (readings radices) rows ∧
        selected = (rows.filter test).map aggregate) ∧
      ([] ∉ lists → RunsThrough radices (readings radices)) ∧
      ([] ∈ lists → selected = []) := by
  intro radices selected
  have hradices : radices ≠ [] := by simpa [radices] using h
  have hselected : selected = ((nested lists).filter test).map aggregate := by
    rw [← product_eq_nested h]
    exact gather_pure test aggregate (product lists)
  rw [readings_eq_grid hradices]
  refine ⟨⟨nested lists, goesThrough_grid lists, hselected⟩, ?_, ?_⟩
  · intro hfull
    refine runsThrough_grid fun radix hradix => ?_
    obtain ⟨spans, hspans, rfl⟩ := List.mem_map.mp hradix
    exact List.length_pos_iff.mpr fun hnil => hfull (hnil ▸ hspans)
  · intro hempty
    rw [hselected, nested_eq_nil hempty]
    rfl

/-- The spans of the last list come in turn for every choice of the others; an index vector whose
row the test refuses leaves nothing. -/
theorem select_goes_through_product_three :
    let a : Span := ⟨0, 1, 0, by decide⟩
    let b : Span := ⟨2, 5, 0, by decide⟩
    let c : Span := ⟨6, 6, 0, by decide⟩
    let lists : List (List Span) := [[a, b], [c], [b, a, c]]
    let test : Row → Bool := fun row => row.head? != row.getLast?
    let starts : Row → List Nat := fun row => row.map Span.start
    let radices := lists.map List.length
    let selected : List (List Nat) :=
      Id.run (selectWith (fun row => pure (test row)) (fun row => pure (starts row)) lists)
    selected = [[0, 6, 2], [0, 6, 6], [2, 6, 0], [2, 6, 6]] ∧
      (∃ rows, GoesThrough lists (readings radices) rows ∧
        selected = (rows.filter test).map starts) ∧
      ([] ∉ lists → RunsThrough radices (readings radices)) ∧
      ([] ∈ lists → selected = []) := by
  intro a b c lists test starts radices selected
  exact ⟨by cbv, select_goes_through_product test starts (by simp [lists])⟩

/-! ## 4. Candidates of an extended selection -/

/-- **The candidates are in nested order**, the existing rows running slowest. -/
theorem candidates_eq (rows : List Row) (lists : List (List Span)) :
    candidates rows lists =
      rows.flatMap fun row => (nested lists).map fun chosen => (row, chosen) := by
  rw [candidates, readings_eq_grid (by simp), grid, List.filterMap_flatMap]
  refine flatMap_range fun digit hdigit => ?_
  rw [← map_choose_grid, List.map_map, List.filterMap_map]
  have hfound : ∀ digits ∈ grid (lists.map List.length),
      rows[digit]?.map (fun row => (row, choose lists digits)) =
        some (rows[digit], choose lists digits) := fun digits _ => by
    rw [List.getElem?_eq_getElem hdigit, Option.map_some]
  exact (List.filterMap_congr hfound).trans (congrFun List.filterMap_eq_map _)

end TaggedText.Selection
