/-
# Rows and the gaps in them

Three operations look at a row in three ways: `seqBeforeMeets` at neighbours, `closedSpan` at the
two ends, and `inBetween` at everything.  They agree on when a row is in order, and then the spans
of the row and the gaps between them are the closed span cut into parts:
`row_and_gaps_tile_closed_span`.

Spans tile a range of positions if every position of it lies in exactly one of them, and no other
position in any (`Spans.Tiles`).  Tilings of ranges that meet make one of both (`Tiles.append`), so
the proof is an induction over the row, in which a span and the gap behind it come in front of what
the rest tiles (`tiles_gaps`).  Spans and gaps may be empty, and are then counted nowhere.
-/
import TaggedText.Proofs.Outcome
import TaggedText.Proofs.Sequences
import TaggedText.Proofs.Spans.Covering
import TaggedText.Spans.Subtract

namespace TaggedText

/-! ## 1. Tilings -/

namespace Spans

theorem totalLength_perm {spans spans' : List Span} (h : spans.Perm spans') :
    totalLength spans = totalLength spans' := by
  induction h with
  | nil => rfl
  | cons a _ ih => simp only [totalLength, ih]
  | swap a b _ => simp only [totalLength, Nat.add_left_comm]
  | trans _ _ ih ih' => exact ih.trans ih'

/-- The positions from a start up to a stop lie in exactly one of the spans each, and all others in
none; an empty span has no position to lie in it. -/
structure Tiles (spans : List Span) (start stop : Nat) : Prop where
  start_le_stop : start ≤ stop
  once : ∀ p, spans.countP (fun a => a.Holds p) = if start ≤ p ∧ p < stop then 1 else 0
  totalLength_eq : totalLength spans = stop - start

theorem tiles_singleton (a : Span) : Tiles [a] a.start a.stop where
  start_le_stop := a.start_le_stop
  once p := by
    simp only [List.countP_singleton, decide_eq_true_eq]
    rfl
  totalLength_eq := by simp [totalLength, Span.length]

variable {spans spans' : List Span} {start middle stop : Nat}

/-- **Tilings that meet make one tiling.** -/
theorem Tiles.append (h : Tiles spans start middle) (h' : Tiles spans' middle stop) :
    Tiles (spans ++ spans') start stop where
  start_le_stop := Nat.le_trans h.start_le_stop h'.start_le_stop
  once p := by
    have hfirst := h.start_le_stop
    have hsecond := h'.start_le_stop
    rw [List.countP_append, h.once, h'.once]
    split <;> split <;> split <;> omega
  totalLength_eq := by
    have hfirst := h.start_le_stop
    have hsecond := h'.start_le_stop
    rw [totalLength_append, h.totalLength_eq, h'.totalLength_eq]
    omega

theorem Tiles.perm (h : Tiles spans start stop) (hperm : spans.Perm spans') :
    Tiles spans' start stop where
  start_le_stop := h.start_le_stop
  once p := by rw [← hperm.countP_eq, h.once]
  totalLength_eq := by rw [← totalLength_perm hperm, h.totalLength_eq]

end Spans

/-! ## 2. Making spans -/

namespace Span

variable {start stop : Nat}

theorem make_of_le (h : start ≤ stop) (offset : Nat) :
    make start stop offset = .ok ⟨start, stop, offset, h⟩ := by
  simp only [make, ofBounds?, dif_pos h]

theorem make_of_lt (h : stop < start) (offset : Nat) :
    make start stop offset = .error (.malformed start stop offset) := by
  simp only [make, ofBounds?, dif_neg (Nat.not_le_of_lt h)]

end Span

namespace Row

open Spans (Tiles)

variable {row : Row} {offset : Nat}

/-! ## 3. Gaps -/

/-- **There are gaps exactly between spans of which each stops where the next one starts, or before
that.** -/
theorem exists_gaps_iff : (∃ between, gaps offset row = .ok between) ↔
    row.seqBeforeMeets = true := by
  induction row with
  | nil => simp [gaps, seqBeforeMeets, chained]
  | cons a rest ih =>
    cases rest with
    | nil => simp [gaps, seqBeforeMeets, chained]
    | cons b rest =>
      rw [seqBeforeMeets, chained, Bool.and_eq_true, Span.before_or_meets_iff, ← seqBeforeMeets,
        ← ih, gaps]
      by_cases hle : a.stop ≤ b.start
      · rw [Span.make_of_le hle]
        cases gaps offset (b :: rest) <;> simp [Except.bind, Except.map, hle]
      · rw [Span.make_of_lt (Nat.lt_of_not_le hle)]
        simp [Except.bind, hle]

/-- **A row and its gaps tile the positions from the first start to the last stop.** -/
theorem tiles_gaps {first last : Span} {rest : Row} {between : List Span}
    (h : gaps offset (first :: rest) = .ok between)
    (hlast : (first :: rest).getLast? = some last) :
    Tiles (first :: rest ++ between) first.start last.stop ∧ ∀ a ∈ between, a.offset = offset := by
  induction rest generalizing first between with
  | nil =>
    cases h
    cases hlast
    exact ⟨Spans.tiles_singleton first, by simp⟩
  | cons next rest ih =>
    rw [gaps] at h
    obtain ⟨gap, hgap, h⟩ := exists_of_bind_ok h
    obtain ⟨others, hothers, rfl⟩ := exists_of_map_ok h
    rw [List.getLast?_cons_cons] at hlast
    obtain ⟨htiles, hoffset⟩ := ih hothers hlast
    by_cases hle : first.stop ≤ next.start
    · rw [Span.make_of_le hle] at hgap
      cases hgap
      have hall := (Spans.tiles_singleton first).append
        ((Spans.tiles_singleton ⟨first.stop, next.start, offset, hle⟩).append htiles)
      -- the gap stands in front of the rest of the row here, and behind it in the end
      have hbehind (gap : Span) :
          (gap :: (next :: rest ++ others)).Perm (next :: rest ++ gap :: others) :=
        List.perm_middle.symm
      exact ⟨hall.perm ((hbehind _).cons first), List.forall_mem_cons.mpr ⟨rfl, hoffset⟩⟩
    · rw [Span.make_of_lt (Nat.lt_of_not_le hle)] at hgap
      cases hgap

/-! ## 4. Offsets -/

theorem commonOffset_of_forall (hrow : row ≠ []) (h : ∀ a ∈ row, a.offset = offset)
    (operation : Operation) : commonOffset operation row = .ok offset := by
  obtain ⟨first, rest, rfl⟩ := List.exists_cons_of_ne_nil hrow
  obtain rfl := h first List.mem_cons_self
  have hall : ((first :: rest).all fun a => a.offset == first.offset) = true := by simpa using h
  exact if_pos hall

theorem commonOffset_of_not_exists (h : ¬∃ offset, ∀ a ∈ row, a.offset = offset)
    (operation : Operation) : commonOffset operation row = .error (.offsetsDiffer operation) := by
  refine if_neg fun hall => h ⟨(row.head?.map Span.offset).getD 0, fun a ha => ?_⟩
  simpa using List.all_eq_true.mp hall a ha

/-- The ends of a row of at least two spans. -/
theorem ends_eq {first next last : Span} {rest : Row}
    (hlast : (first :: next :: rest).getLast? = some last) (operation : Operation) :
    ends operation (first :: next :: rest) = .ok (first, last) := by
  rw [List.getLast?_cons_cons, List.getLast?_eq_some_getLast (List.cons_ne_nil next rest)] at hlast
  cases hlast
  rfl

/-! ## 5. The closed span -/

/-- **A row in order and its gaps are the closed span in parts.**  For at least two spans with one
offset: there are gaps between them exactly if each stops where the next one starts or before that;
and then there is a closed span, its positions lie in exactly one of the spans and gaps each, no
other position lies in any, and the lengths of spans and gaps add up to that of the closed span.  If
the offsets differ, there is neither a closed span nor are there gaps, whatever the bounds. -/
theorem row_and_gaps_tile_closed_span (row : Row) (hrow : 2 ≤ row.length) :
    (∀ offset, (∀ a ∈ row, a.offset = offset) →
      ((∃ between, row.inBetween = .ok between) ↔ row.seqBeforeMeets = true) ∧
      ∀ between, row.inBetween = .ok between → ∃ whole, row.closedSpan = .ok whole ∧
        (∀ a ∈ whole :: between, a.offset = offset) ∧
        (∀ p, (row ++ between).countP (fun a => a.Holds p) = if whole.Holds p then 1 else 0) ∧
        Spans.totalLength (row ++ between) = whole.length) ∧
    ((¬∃ offset, ∀ a ∈ row, a.offset = offset) →
      row.closedSpan = .error (.offsetsDiffer .closedSpan) ∧
      row.inBetween = .error (.offsetsDiffer .inBetween)) := by
  obtain ⟨first, next, rest, rfl⟩ : ∃ first next rest, row = first :: next :: rest := by
    match row, hrow with
    | first :: next :: rest, _ => exact ⟨first, next, rest, rfl⟩
  obtain ⟨last, hlast⟩ : ∃ last, (first :: next :: rest).getLast? = some last :=
    ⟨_, List.getLast?_eq_some_getLast (List.cons_ne_nil _ _)⟩
  refine ⟨fun offset hoffset => ?_, fun hnone => ?_⟩
  · have hcommon := commonOffset_of_forall (List.cons_ne_nil _ _) hoffset
    have hbetween : inBetween (first :: next :: rest) = gaps offset (first :: next :: rest) := by
      rw [inBetween, hcommon]
      rfl
    have hclosed : closedSpan (first :: next :: rest) = Span.make first.start last.stop offset := by
      rw [closedSpan, spanning, ends_eq hlast, hcommon]
      rfl
    rw [hbetween, hclosed]
    refine ⟨exists_gaps_iff, fun between h => ?_⟩
    obtain ⟨htiles, hgaps⟩ := tiles_gaps h hlast
    exact ⟨_, Span.make_of_le htiles.start_le_stop offset, List.forall_mem_cons.mpr ⟨rfl, hgaps⟩,
      htiles.once, htiles.totalLength_eq⟩
  · have hnone := commonOffset_of_not_exists hnone
    rw [inBetween, closedSpan, spanning, ends_eq hlast, hnone, hnone]
    exact ⟨rfl, rfl⟩

/-- Three spans of which the second is empty and meets the first; and two spans with different
offsets. -/
theorem row_and_gaps_tile_closed_span_empty :
    let row : Row := [⟨2, 4, 3, by decide⟩, ⟨4, 4, 3, by decide⟩, ⟨7, 9, 3, by decide⟩]
    let between : List Span := [⟨4, 4, 3, by decide⟩, ⟨4, 7, 3, by decide⟩]
    let mixed : Row := [⟨2, 4, 0, by decide⟩, ⟨7, 9, 1, by decide⟩]
    row.seqBeforeMeets = true ∧ row.inBetween = .ok between ∧
      row.closedSpan = .ok ⟨2, 9, 3, by decide⟩ ∧
      (row ++ between).countP (fun a => a.Holds 4) = 1 ∧ Spans.totalLength (row ++ between) = 7 ∧
      mixed.closedSpan = .error (.offsetsDiffer .closedSpan) ∧
      mixed.inBetween = .error (.offsetsDiffer .inBetween) := by
  intro row between mixed
  have hclosed : row.closedSpan = .ok ⟨2, 9, 3, by decide⟩ := by rfl
  have hbetween : row.inBetween = .ok between := by rfl
  have hdiffer : ¬∃ offset, ∀ a ∈ mixed, a.offset = offset := by
    rintro ⟨offset, h⟩
    simp [mixed] at h
    omega
  obtain ⟨hiff, htiles⟩ := (row_and_gaps_tile_closed_span row (by decide)).1 3 (by decide)
  obtain ⟨whole, hwhole, -, honce, hlength⟩ := htiles between hbetween
  cases hclosed.symm.trans hwhole
  obtain ⟨hmixed, hmixed'⟩ := (row_and_gaps_tile_closed_span mixed (by decide)).2 hdiffer
  exact ⟨hiff.mp ⟨between, hbetween⟩, hbetween, hclosed, honce 4, hlength, hmixed, hmixed'⟩

end Row

end TaggedText
