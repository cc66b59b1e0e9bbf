/-
# Rows in sequence

The sequence relations look at neighbours only (`chained_iff`).  As no span stops before it starts,
that is enough: that one span ends before another one starts, or where it starts, passes on from
neighbours, so **it holds of all pairs of a row if it holds of the neighbours**
(`chained_iff_pairwise`).

A bound on the gaps does not pass on.  But in a row in which each span ends before the next one
starts, no gap between neighbours is longer than the one from the first stop to the last start, so a
bound on that one is enough (`seqBeforeWithin_of_seqBefore`).
-/
import TaggedText.Relation
import Mathlib.Data.List.Chain

namespace TaggedText

/-! ## 1. Two spans -/

namespace Span

variable {a b c : Span}

theorem before_iff : a.before b = true ↔ a.stop < b.start := decide_eq_true_iff

theorem before_or_meets_iff : (a.before b || a.meets b) = true ↔ a.stop ≤ b.start := by
  simp only [before, meets, Bool.or_eq_true, decide_eq_true_eq, beq_iff_eq]
  omega

theorem before_trans (hab : a.before b = true) (hbc : b.before c = true) : a.before c = true := by
  have hb := b.start_le_stop
  rw [before_iff] at hab hbc ⊢
  omega

theorem before_or_meets_trans (hab : (a.before b || a.meets b) = true)
    (hbc : (b.before c || b.meets c) = true) : (a.before c || a.meets c) = true := by
  have hb := b.start_le_stop
  rw [before_or_meets_iff] at hab hbc ⊢
  omega

end Span

namespace Row

variable {row : Row} {gap : Nat}

/-! ## 2. Neighbours and pairs -/

theorem chained_iff {related : Span → Span → Bool} :
    chained related row = true ↔ row.IsChain fun a b => related a b = true := by
  induction row with
  | nil => simp [chained]
  | cons a rest ih =>
    cases rest with
    | nil => simp [chained]
    | cons b rest => rw [chained, Bool.and_eq_true, ih, List.isChain_cons_cons]

/-- **What passes on from neighbours holds of all pairs.** -/
theorem chained_iff_pairwise {related : Span → Span → Bool}
    (htrans : ∀ a b c, related a b = true → related b c = true → related a c = true) :
    chained related row = true ↔ row.Pairwise fun a b => related a b = true := by
  have : Trans (fun a b => related a b = true) (fun a b => related a b = true)
    (fun a b => related a b = true) := ⟨htrans _ _ _⟩
  rw [chained_iff, List.isChain_iff_pairwise]

theorem seqBefore_iff : row.seqBefore = true ↔ row.Pairwise fun a b => a.before b = true :=
  chained_iff_pairwise fun _ _ _ => Span.before_trans

theorem seqBeforeMeets_iff :
    row.seqBeforeMeets = true ↔ row.Pairwise fun a b => a.stop ≤ b.start := by
  have hpairs : row.seqBeforeMeets = true ↔
      row.Pairwise fun a b => (a.before b || a.meets b) = true :=
    chained_iff_pairwise fun _ _ _ => Span.before_or_meets_trans
  simpa only [Span.before_or_meets_iff] using hpairs

/-! ## 3. Bounded gaps -/

theorem seqBeforeWithin_iff : row.seqBeforeWithin gap = true ↔
    row.IsChain fun a b => a.before b = true ∧ b.start - a.stop ≤ gap := by
  simp only [seqBeforeWithin, chained_iff, Bool.and_eq_true, decide_eq_true_eq]

theorem seqBeforeWithin_mono {gap' : Nat} (hgap : gap ≤ gap')
    (h : row.seqBeforeWithin gap = true) : row.seqBeforeWithin gap' = true := by
  rw [seqBeforeWithin_iff] at h ⊢
  exact h.imp fun _ _ hab => ⟨hab.1, Nat.le_trans hab.2 hgap⟩

theorem seqBefore_of_seqBeforeWithin (h : row.seqBeforeWithin gap = true) :
    row.seqBefore = true := by
  rw [seqBeforeWithin_iff] at h
  exact chained_iff.mpr (h.imp fun _ _ hab => hab.1)

/-- No span of a sequence starts before the first one does. -/
theorem start_le_of_seqBefore {first a : Span} {rest : Row}
    (h : seqBefore (first :: rest) = true) (ha : a ∈ first :: rest) : first.start ≤ a.start := by
  have hfirst := first.start_le_stop
  rcases List.mem_cons.mp ha with rfl | ha
  · exact Nat.le_refl _
  · have hbefore := (List.pairwise_cons.mp (seqBefore_iff.mp h)).1 a ha
    rw [Span.before_iff] at hbefore
    omega

/-- **The gap from the first stop to the last start bounds all gaps** of a sequence. -/
theorem seqBeforeWithin_of_seqBefore {first last : Span} {rest : Row}
    (h : seqBefore (first :: rest) = true) (hlast : (first :: rest).getLast? = some last)
    (hgap : last.start - first.stop ≤ gap) : seqBeforeWithin gap (first :: rest) = true := by
  induction rest generalizing first with
  | nil => rfl
  | cons next rest ih =>
    obtain ⟨hbefore, hrest⟩ : first.before next = true ∧ seqBefore (next :: rest) = true := by
      simpa [seqBefore, chained] using h
    rw [List.getLast?_cons_cons] at hlast
    have hstart : next.start ≤ last.start :=
      start_le_of_seqBefore hrest (List.mem_of_getLast? hlast)
    have hnext := next.start_le_stop
    rw [Span.before_iff] at hbefore
    have hothers : seqBeforeWithin gap (next :: rest) = true := ih hrest hlast (by omega)
    rw [seqBeforeWithin_iff] at hothers ⊢
    exact List.isChain_cons_cons.mpr ⟨⟨Span.before_iff.mpr hbefore, by omega⟩, hothers⟩

/-! ## 4. All pairs -/

/-- **Sequence relations, asked of neighbours, hold of all pairs.**  A row is in sequence exactly if
every span of it ends before every later one starts, and meeting spans are allowed exactly if every
span ends at or before the start of every later one.  A bound on the gaps can be raised, is asked of
sequences only, and is kept by every sequence in which the gap from the first stop to the last start
keeps it.  Rows of one span, and the one without spans, are no exception. -/
theorem sequences_relate_all_pairs (row : Row) :
    (row.seqBefore = true ↔ row.Pairwise fun a b => a.before b = true) ∧
    (row.seqBeforeMeets = true ↔ row.Pairwise fun a b => a.stop ≤ b.start) ∧
    (∀ gap gap', gap ≤ gap' → row.seqBeforeWithin gap = true → row.seqBeforeWithin gap' = true) ∧
    (∀ gap, row.seqBeforeWithin gap = true → row.seqBefore = true) ∧
    ∀ gap, (∀ first ∈ row.head?, ∀ last ∈ row.getLast?, last.start - first.stop ≤ gap) →
      row.seqBefore = true → row.seqBeforeWithin gap = true := by
  refine ⟨seqBefore_iff, seqBeforeMeets_iff, fun _ _ => seqBeforeWithin_mono,
    fun _ => seqBefore_of_seqBeforeWithin, fun gap hgap h => ?_⟩
  cases row with
  | nil => rfl
  | cons first rest =>
    have hlast : (first :: rest).getLast? = some ((first :: rest).getLast (by simp)) :=
      List.getLast?_eq_some_getLast _
    exact seqBeforeWithin_of_seqBefore h hlast (hgap first rfl _ hlast)

/-- Three spans with gaps of two and five positions, which lie eight positions apart at the ends;
five is the least bound that they keep. -/
theorem sequences_relate_all_pairs_three :
    let row : Row := [⟨0, 1, 0, by decide⟩, ⟨3, 4, 0, by decide⟩, ⟨9, 10, 7, by decide⟩]
    row.seqBefore = true ∧ (row.Pairwise fun a b => a.before b = true) ∧
      row.seqBeforeWithin 4 = false ∧ row.seqBeforeWithin 5 = true ∧
      row.seqBeforeWithin 6 = true ∧ row.seqBeforeWithin 8 = true := by
  intro row
  obtain ⟨hbefore, -, hmono, hsequence, hends⟩ := sequences_relate_all_pairs row
  have hfive : row.seqBeforeWithin 5 = true := by decide
  have hrow : row.seqBefore = true := hsequence 5 hfive
  refine ⟨hrow, hbefore.mp hrow, by decide, hfive, hmono 5 6 (by decide) hfive, hends 8 ?_ hrow⟩
  rintro _ ⟨⟩ _ ⟨⟩
  decide

end Row

end TaggedText
