/-
# What a selection goes through

The counter runs through the readings of its digits in lexicographic order, the last digit fastest,
and meets each of them once: `readings_eq_grid`.  So the rows of a product are the rows with one
span from each list (`mem_product`), and the candidates of an extended selection are all pairs of
an existing row with such a row (`mem_candidates`).

What a test with effects keeps is a part of what it was given: `keep_gives`.
-/
import TaggedText.Selection
import TaggedText.Proofs.Outcome
import Mathlib.Data.List.Chain
import Mathlib.Data.List.Forall2

namespace TaggedText.Selection

/-! ## 1. The counter -/

/-- All readings of a counter in lexicographic order. -/
def grid : List Nat → List (List Nat)
  | [] => [[]]
  | radix :: radices => (List.range radix).flatMap fun digit => (grid radices).map (digit :: ·)

/-- **A reading has each digit below its radix.** -/
theorem mem_grid {radices digits : List Nat} :
    digits ∈ grid radices ↔ List.Forall₂ (· < ·) digits radices := by
  induction radices generalizing digits with
  | nil => simp [grid]
  | cons radix radices ih =>
    simp only [grid, List.mem_flatMap, List.mem_range, List.mem_map]
    constructor
    · rintro ⟨digit, hd, later, hl, rfl⟩
      exact .cons hd (ih.mp hl)
    · rintro (_ | ⟨hd, hl⟩)
      exact ⟨_, hd, _, ih.mpr hl, rfl⟩

theorem length_of_mem_grid {radices digits : List Nat} (h : digits ∈ grid radices) :
    digits.length = radices.length :=
  (mem_grid.mp h).length_eq

theorem grid_eq_nil {radices : List Nat} (h : 0 ∈ radices) : grid radices = [] := by
  refine List.eq_nil_iff_forall_not_mem.mpr fun digits hd => ?_
  obtain ⟨i, hi, h0⟩ := List.getElem_of_mem h
  have hd := mem_grid.mp hd
  have := hd.get (i := i) (by rw [hd.length_eq]; exact hi) hi
  simp [h0] at this

theorem length_grid (radices : List Nat) (n : Nat) :
    radices.foldl (· * ·) n = n * (grid radices).length := by
  induction radices generalizing n with
  | nil => simp [grid]
  | cons radix radices ih =>
    simp only [List.foldl_cons, ih, grid, List.length_flatMap, List.length_map]
    simp [Nat.mul_assoc]

/-- A list that the counter runs through from its first reading to the end. -/
structure RunsThrough (radices : List Nat) (readings : List (List Nat)) : Prop where
  first : readings.head? = some (radices.map fun _ => 0)
  next : readings.IsChain fun digits later => advance radices digits = some later
  last : ∀ digits ∈ readings.getLast?, advance radices digits = none

/-- Inside a block of equal first digits the later digits advance. -/
theorem advance_cons {radices digits later : List Nat} (radix digit : Nat)
    (h : advance radices digits = some later) :
    advance (radix :: radices) (digit :: digits) = some (digit :: later) := by
  simp [advance, h]

/-- At the end of a block the first digit advances, if it can. -/
theorem advance_carry {radices digits : List Nat} (radix digit : Nat)
    (h : advance radices digits = none) :
    advance (radix :: radices) (digit :: digits) =
      if digit + 1 < radix then some ((digit + 1) :: digits.map fun _ => 0) else none := by
  simp [advance, h]

/-- Digits that belong to a counter go back to its first reading. -/
theorem map_zero_of_mem_grid {radices digits : List Nat} (h : digits ∈ grid radices) :
    (digits.map fun _ => 0) = radices.map fun _ => 0 := by
  simp [List.map_const', length_of_mem_grid h]

theorem runsThrough_grid : ∀ {radices : List Nat}, (∀ radix ∈ radices, 0 < radix) →
    RunsThrough radices (grid radices)
  | [], _ => ⟨rfl, .singleton _, by simp [grid, advance]⟩
  | radix :: radices, h => by
    have ih := runsThrough_grid fun r hr => h r (List.mem_cons_of_mem _ hr)
    have hpos : 0 < radix := h radix List.mem_cons_self
    have hne : grid radices ≠ [] := fun hnil => by simpa [hnil] using ih.first
    have hlast : ∀ digits ∈ (grid radices).getLast?,
        advance radices digits = none ∧ (digits.map fun _ => 0) = radices.map fun _ => 0 :=
      fun digits hd => ⟨ih.last digits hd,
        map_zero_of_mem_grid (List.mem_of_getLast? hd)⟩
    obtain ⟨n, rfl⟩ : ∃ n, radix = n + 1 := ⟨radix - 1, by omega⟩
    refine ⟨?_, ?_, ?_⟩
    · rw [grid, List.range_succ_eq_map, List.flatMap_cons, List.head?_append, List.head?_map,
        ih.first]
      rfl
    · rw [grid, List.flatMap, List.isChain_flatten (by simpa using fun _ _ => hne)]
      refine ⟨?_, ?_⟩
      · simp only [List.forall_mem_map, List.isChain_map]
        exact fun digit _ => ih.next.imp fun _ _ => advance_cons _ _
      · -- from the end of one block to the beginning of the next one
        rw [List.isChain_map, List.isChain_iff_getElem]
        intro i hi
        simp only [List.length_range] at hi
        simp only [List.getElem_range, List.getLast?_map, List.head?_map, ih.first,
          Option.map_some, Option.mem_def, Option.some.injEq, Option.map_eq_some_iff]
        rintro _ ⟨digits, hd, rfl⟩ _ rfl
        obtain ⟨hnone, hzero⟩ := hlast digits hd
        rw [advance_carry _ _ hnone, if_pos hi, hzero]
    · rw [grid, List.range_succ, List.flatMap_append, List.flatMap_singleton,
        List.getLast?_append, List.getLast?_map]
      obtain ⟨digits, hd⟩ := Option.ne_none_iff_exists'.mp
        (mt List.getLast?_eq_none_iff.mp hne)
      rw [hd]
      rintro _ ⟨⟩
      rw [advance_carry _ _ (hlast digits hd).1, if_neg (by omega)]

/-- The counter runs through a chain of readings from its first one on, given enough fuel. -/
theorem readingsFrom_of_isChain {radices : List Nat} : ∀ (rest : List (List Nat))
    (digits : List Nat),
    (digits :: rest).IsChain (fun digits later => advance radices digits = some later) →
    (∀ last ∈ (digits :: rest).getLast?, advance radices last = none) →
    readingsFrom radices (rest.length + 1) digits = digits :: rest
  | [], digits, _, hlast => by
    have := hlast digits rfl
    simp [readingsFrom, this]
  | later :: rest, digits, hnext, hlast => by
    obtain ⟨h, hnext⟩ := List.isChain_cons_cons.mp hnext
    rw [readingsFrom, h, List.length_cons]
    have ih := readingsFrom_of_isChain rest later hnext
      (by simpa [List.getLast?_cons_cons] using hlast)
    simp [ih]

/-- **The counter meets every reading once, in lexicographic order.** -/
theorem readings_eq_grid {radices : List Nat} (h : radices ≠ []) :
    readings radices = grid radices := by
  rw [readings]
  have hempty : radices.isEmpty = false := by simpa using h
  by_cases h0 : 0 ∈ radices
  · simp [h0, grid_eq_nil h0]
  · have hpos : ∀ radix ∈ radices, 0 < radix := fun radix hr =>
      Nat.pos_of_ne_zero fun hz => h0 (hz ▸ hr)
    have hrun := runsThrough_grid hpos
    have hlen := length_grid radices 1
    cases hg : grid radices with
    | nil => simpa [hg] using hrun.first
    | cons digits rest =>
      rw [hg] at hrun hlen
      have hfirst : digits = radices.map fun _ => 0 := by simpa using hrun.first
      rw [if_neg (by simp [hempty, h0]), hlen, ← hfirst, Nat.one_mul, List.length_cons]
      exact readingsFrom_of_isChain rest digits hrun.next hrun.last

/-! ## 2. Rows of a product -/

/-- The digits below the lengths of lists choose the rows with one span from each list. -/
theorem mem_choose {lists : List (List Span)} {row : Row} :
    (∃ digits ∈ grid (lists.map List.length), choose lists digits = row) ↔
      List.Forall₂ (fun spans span => span ∈ spans) lists row := by
  induction lists generalizing row with
  | nil => simp [grid, choose, eq_comm]
  | cons spans lists ih =>
    simp only [List.map_cons, mem_grid] at ih ⊢
    constructor
    · rintro ⟨_, _ | ⟨hd, hl⟩, rfl⟩
      have hrest := ih.mp ⟨_, hl, rfl⟩
      simp only [choose] at hrest
      simp [choose, List.zip_cons_cons, List.getElem?_eq_getElem hd, hrest]
    · rintro (_ | ⟨hs, hrest⟩)
      obtain ⟨digit, hd, rfl⟩ := List.getElem_of_mem hs
      obtain ⟨digits, hl, rfl⟩ := ih.mpr hrest
      exact ⟨digit :: digits, .cons hd hl, by
        simp [choose, List.zip_cons_cons, List.getElem?_eq_getElem hd]⟩

/-- **The rows of a product have one span from each list.** -/
theorem mem_product {lists : List (List Span)} (h : lists ≠ []) {row : Row} :
    row ∈ product lists ↔ List.Forall₂ (fun spans span => span ∈ spans) lists row := by
  rw [product, readings_eq_grid (by simpa using h), List.mem_map]
  exact mem_choose

/-! ## 3. Candidates -/

/-- **Every existing row is tried with every row of the product of the added lists.** -/
theorem mem_candidates {rows : List Row} {lists : List (List Span)} {row chosen : Row} :
    (row, chosen) ∈ candidates rows lists ↔
      row ∈ rows ∧ List.Forall₂ (fun spans span => span ∈ spans) lists chosen := by
  rw [candidates, readings_eq_grid (by simp), List.mem_filterMap]
  constructor
  · rintro ⟨digits, hd, hrow⟩
    cases hd' : mem_grid.mp hd with
    | cons hdigit hothers =>
      simp only [List.getElem?_eq_getElem hdigit, Option.map_some, Option.some.injEq,
        Prod.mk.injEq] at hrow
      exact ⟨hrow.1 ▸ List.getElem_mem hdigit,
        mem_choose.mp ⟨_, mem_grid.mpr hothers, hrow.2⟩⟩
  · rintro ⟨hr, hc⟩
    obtain ⟨digit, hdigit, rfl⟩ := List.getElem_of_mem hr
    obtain ⟨others, ho, rfl⟩ := mem_choose.mpr hc
    exact ⟨digit :: others, mem_grid.mpr (.cons hdigit (mem_grid.mp ho)), by
      simp [List.getElem?_eq_getElem hdigit]⟩

/-! ## 4. Tests with effects -/

section Effects

open MonadAttach (CanReturn)

variable {m : Type → Type} [Monad m] [LawfulMonad m] [MonadAttach m] [LawfulMonadAttach m]

/-- **What a test keeps was given to it**; it has said yes to what is kept, and no to each member
that is not. -/
theorem keep_gives {α : Type} {test : α → m Bool} : ∀ {given kept : List α},
    CanReturn (keep test given) kept →
      (∀ a ∈ kept, a ∈ given ∧ CanReturn (test a) true) ∧
        ∀ a ∈ given, a ∉ kept → CanReturn (test a) false
  | [], kept, h => by
    have : [] = kept := LawfulMonadAttach.eq_of_canReturn_pure h
    subst this
    simp
  | a :: rest, kept, h => by
    rw [keep] at h
    obtain ⟨answer, ha, h⟩ := LawfulMonadAttach.canReturn_bind_imp' h
    cases answer with
    | true =>
      obtain ⟨later, hlater, h⟩ := LawfulMonadAttach.canReturn_bind_imp' h
      have : a :: later = kept := LawfulMonadAttach.eq_of_canReturn_pure h
      subst this
      obtain ⟨hyes, hno⟩ := keep_gives hlater
      refine ⟨List.forall_mem_cons.mpr ⟨⟨List.mem_cons_self, ha⟩, fun b hb => ?_⟩, ?_⟩
      · exact ⟨List.mem_cons_of_mem _ (hyes b hb).1, (hyes b hb).2⟩
      · intro b hb hnot
        simp only [List.mem_cons, not_or] at hb hnot
        exact hno b (hb.resolve_left hnot.1) hnot.2
    | false =>
      have hrest : CanReturn (keep test rest) kept := h
      obtain ⟨hyes, hno⟩ := keep_gives hrest
      refine ⟨fun b hb => ⟨List.mem_cons_of_mem _ (hyes b hb).1, (hyes b hb).2⟩, ?_⟩
      intro b hb hnot
      rcases List.mem_cons.mp hb with rfl | hb
      · exact ha
      · exact hno b hb hnot

end Effects

end TaggedText.Selection
