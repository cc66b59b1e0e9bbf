/-
# Checked operations on spans

Spans are made of numbers that are compared, subtracted and added, mostly without a look at whether
the result makes sense.  Here the same is done with every step checked: a span has to stop where it
starts or behind (`Checked.span`), a difference must not be below zero (`Checked.minus`), a sum has
to fit into a word (`Checked.plus`), and a text is put only between positions of another one
(`Checked.splice`).  A computation stops at the first check that fails.

For each operation there is a statement that **no check fails, and the checked operation gives what
the plain one does**.  That a span is made with its bounds in order comes from the case in which it
is made: a cut overlaps what is cut, a span begins after the point that the text is free from, and
so on.

Sums are made only where a span is counted from the beginning of the text.  They are words exactly
for the spans that fit (`Span.Fits`); **a span that does not fit stops the computation with an
overflow** (`overflows_bounds`, and `overflows_mapM` for lists of spans).
-/
import TaggedText.Proofs.Outcome
import TaggedText.Query.Predicate
import TaggedText.Spans.Cluster
import TaggedText.Spans.Subtract
import TaggedText.Text.Units

namespace TaggedText

/-! ## 1. Checks -/

/-- A check that fails: a span that would stop before it starts, a difference below zero, a sum that
needs more than a word, or a text put between numbers that are no positions of another one. -/
inductive Breach where
  | inverted (start stop : Nat)
  | underflow (a b : Nat)
  | overflow (a b : Nat)
  | outside (start stop : Nat)
deriving DecidableEq

/-- A computation that stops at the first check that fails. -/
abbrev Checked (α : Type) := Except Breach α

namespace Checked

/-- Words hold the numbers below this one. -/
def wordBound : Nat := 18446744073709551616

/-- A difference, which must not be below zero. -/
def minus (a b : Nat) : Checked Nat := if b ≤ a then .ok (a - b) else .error (.underflow a b)

/-- A sum, which has to be a word. -/
def plus (a b : Nat) : Checked Nat :=
  if a + b < wordBound then .ok (a + b) else .error (.overflow a b)

/-- A span, which must not stop before it starts. -/
def span (start stop offset : Nat) : Checked Span :=
  if h : start ≤ stop then .ok ⟨start, stop, offset, h⟩ else .error (.inverted start stop)

/-- A text in place of what lies between two numbers, which must be positions of the text around
it. -/
def splice (text : List Char) (start stop : Nat) (new : List Char) : Checked (List Char) :=
  match Text.splice? text start stop new with
  | some result => .ok result
  | none => .error (.outside start stop)

theorem minus_eq {a b : Nat} (h : b ≤ a) : minus a b = .ok (a - b) := if_pos h

theorem plus_eq {a b : Nat} (h : a + b < wordBound) : plus a b = .ok (a + b) := if_pos h

theorem span_eq {start stop : Nat} (h : start ≤ stop) (offset : Nat) :
    span start stop offset = .ok ⟨start, stop, offset, h⟩ := dif_pos h

/-- What a list gives if its elements are gone through with checks. -/
theorem mapM_eq {α β : Type} {f : α → Checked β} {g : α → β} {l : List α}
    (h : ∀ a ∈ l, f a = .ok (g a)) : l.mapM f = .ok (l.map g) := by
  induction l with
  | nil => rfl
  | cons a l ih =>
    rw [List.mapM_cons, h a List.mem_cons_self, ih fun b hb => h b (List.mem_cons_of_mem _ hb)]
    rfl

/-- What going through a list gives if every step passes its checks. -/
theorem foldlM_eq {α β : Type} {f : β → α → Checked β} {g : β → α → β} {l : List α}
    (h : ∀ a ∈ l, ∀ b, f b a = .ok (g b a)) (b : β) : l.foldlM f b = .ok (l.foldl g b) := by
  induction l generalizing b with
  | nil => rfl
  | cons a l ih =>
    rw [List.foldlM_cons, h a List.mem_cons_self b, ok_bind,
      ih fun c hc => h c (List.mem_cons_of_mem _ hc)]
    rfl

/-- The values that elements of a list have, if they have one. -/
def collect {α β : Type} (f : α → Checked (Option β)) (l : List α) : Checked (List β) :=
  (l.mapM f).map (·.filterMap id)

theorem collect_eq {α β : Type} {f : α → Checked (Option β)} {g : α → Option β} {l : List α}
    (h : ∀ a ∈ l, f a = .ok (g a)) : collect f l = .ok (l.filterMap g) := by
  rw [collect, mapM_eq h]
  simp [Except.map, List.filterMap_map]

/-! ## 2. One span, and two -/

/-- The number of positions in a span. -/
def length (a : Span) : Checked Nat := minus a.stop a.start

theorem length_eq (a : Span) : length a = .ok a.length := minus_eq a.start_le_stop

/-- The number of positions that two spans share. -/
def intersectionLength (a b : Span) : Checked Nat :=
  if a.start < b.start ∧ b.start < a.stop then minus (min a.stop b.stop) b.start
  else if b.start < a.start ∧ a.start < b.stop then minus (min a.stop b.stop) a.start
  else if a.start = b.start then do
    return min (← minus b.stop b.start) (← minus a.stop a.start)
  else return 0

theorem intersectionLength_eq (a b : Span) :
    intersectionLength a b = .ok (a.intersectionLength b) := by
  have ha := a.start_le_stop
  have hb := b.start_le_stop
  unfold intersectionLength Span.intersectionLength
  split
  · exact minus_eq (by omega)
  split
  · exact minus_eq (by omega)
  split
  · rw [minus_eq hb, minus_eq ha]
    rfl
  · rfl

/-- The hull of two spans that meet or intersect and have one offset. -/
def merge (a b : Span) : Checked (Except Fault Span) :=
  if a.stop < b.start ∨ b.stop < a.start then return .error (.apart a b)
  else if a.offset ≠ b.offset then return .error (.offsetsDiffer .merge)
  else do
    let hull ← span (min a.start b.start) (max a.stop b.stop) a.offset
    return .ok hull

theorem merge_eq (a b : Span) : merge a b = .ok (a.merge b) := by
  unfold merge Span.merge
  split
  · rfl
  split
  · rfl
  · have ha := a.start_le_stop
    rw [span_eq (by omega : min a.start b.start ≤ max a.stop b.stop)]
    rfl

/-- The bounds of a span counted from the beginning of the text. -/
def bounds (a : Span) : Checked (Nat × Nat) := do
  let start ← plus a.offset a.start
  let stop ← plus a.offset a.stop
  return (start, stop)

/-- The same span with its bounds counted from the beginning of the text. -/
def absolute (a : Span) : Checked Span := do
  let (start, stop) ← bounds a
  span start stop 0

/-- The computation stops at a sum that needs more than a word. -/
def Overflows {α : Type} (x : Checked α) : Prop := ∃ m n, x = .error (.overflow m n)

end Checked

/-- The bounds of a span are words when they are counted from the beginning of the text. -/
def Span.Fits (a : Span) : Prop := a.offset + a.stop < Checked.wordBound

instance (a : Span) : Decidable a.Fits := inferInstanceAs (Decidable (_ < _))

namespace Checked

theorem bounds_eq {a : Span} (h : a.Fits) : bounds a = .ok a.bounds := by
  have ha := a.start_le_stop
  unfold Span.Fits at h
  unfold bounds
  rw [plus_eq (by omega : a.offset + a.start < wordBound), plus_eq h]
  rfl

theorem absolute_eq {a : Span} (h : a.Fits) : absolute a = .ok a.absolute := by
  have ha := a.start_le_stop
  unfold absolute
  rw [bounds_eq h]
  exact span_eq (Nat.add_le_add_left ha a.offset) 0

/-- **Counting a span that does not fit from the beginning of the text overflows.** -/
theorem overflows_bounds {a : Span} (h : ¬ a.Fits) : Overflows (bounds a) := by
  have hstop : plus a.offset a.stop = .error (.overflow a.offset a.stop) := if_neg h
  unfold bounds
  by_cases hstart : a.offset + a.start < wordBound
  · rw [plus_eq hstart, ok_bind, hstop]
    exact ⟨a.offset, a.stop, rfl⟩
  · rw [plus, if_neg hstart]
    exact ⟨a.offset, a.start, rfl⟩

theorem Overflows.bind {α β : Type} {x : Checked α} (h : Overflows x) (f : α → Checked β) :
    Overflows (x >>= f) := by
  obtain ⟨m, n, rfl⟩ := h
  exact ⟨m, n, rfl⟩

theorem overflows_absolute {a : Span} (h : ¬ a.Fits) : Overflows (absolute a) :=
  (overflows_bounds h).bind _

/-- A step at which the computation overflows, whatever came before, where the others succeed. -/
theorem overflows_foldlM {α β : Type} {f : β → α → Checked β} {l : List α}
    (hall : ∀ a ∈ l, ∀ b, (∃ c, f b a = .ok c) ∨ Overflows (f b a))
    (hsome : ∃ a ∈ l, ∀ b, Overflows (f b a)) (b : β) : Overflows (l.foldlM f b) := by
  induction l generalizing b with
  | nil => simp at hsome
  | cons a l ih =>
    rw [List.foldlM_cons]
    rcases hall a List.mem_cons_self b with ⟨c, hc⟩ | hover
    · have hrest : ∃ e ∈ l, ∀ b, Overflows (f b e) := by
        obtain ⟨e, he, hover⟩ := hsome
        rcases List.mem_cons.mp he with rfl | he
        · obtain ⟨m, n, hover⟩ := hover b
          cases hc.symm.trans hover
        · exact ⟨e, he, hover⟩
      rw [hc, ok_bind]
      exact ih (fun e he => hall e (List.mem_cons_of_mem _ he)) hrest c
    · exact hover.bind _

/-- A list with an element at which the computation overflows, where it succeeds at all others. -/
theorem overflows_mapM {α β : Type} {f : α → Checked β} {l : List α}
    (hall : ∀ a ∈ l, (∃ b, f a = .ok b) ∨ Overflows (f a)) (hsome : ∃ a ∈ l, Overflows (f a)) :
    Overflows (l.mapM f) := by
  obtain ⟨a, ha, hover⟩ := hsome
  rw [List.mapM_eq_reverse_foldlM_cons, map_eq_pure_bind]
  refine (overflows_foldlM (fun b hb found => ?_) ⟨a, ha, fun _ => hover.bind _⟩ []).bind _
  rcases hall b hb with ⟨c, hc⟩ | hover
  · exact .inl ⟨c :: found, by rw [hc]; rfl⟩
  · exact .inr (hover.bind _)

theorem ok_or_overflows_absolute (a : Span) :
    (∃ b, absolute a = .ok b) ∨ Overflows (absolute a) := by
  by_cases h : a.Fits
  · exact .inl ⟨a.absolute, absolute_eq h⟩
  · exact .inr (overflows_absolute h)

/-- **Spans of which one does not fit cannot all be counted from the beginning of the text.** -/
theorem overflows_mapM_absolute {spans : List Span} (h : ∃ a ∈ spans, ¬ a.Fits) :
    Overflows (spans.mapM absolute) := by
  obtain ⟨a, ha, hnot⟩ := h
  exact overflows_mapM (fun b _ => ok_or_overflows_absolute b) ⟨a, ha, overflows_absolute hnot⟩

/-! ## 3. Rows -/

/-- A span with bounds that are looked at first. -/
def make (start stop offset : Nat) : Checked (Except Fault Span) :=
  if stop < start then return .error (.malformed start stop offset)
  else do
    let a ← span start stop offset
    return .ok a

theorem make_eq (start stop offset : Nat) :
    make start stop offset = .ok (Span.make start stop offset) := by
  unfold make Span.make Span.ofBounds?
  split
  · next h =>
    rw [dif_neg (Nat.not_le_of_lt h)]
    rfl
  · next h =>
    rw [span_eq (Nat.le_of_not_lt h), dif_pos (Nat.le_of_not_lt h)]
    rfl

/-- The span from a border of the first span of a row to a border of the last. -/
def spanning (operation : Operation) (left right : Span → Nat) (row : Row) :
    Checked (Except Fault Span) :=
  match Row.ends operation row, Row.commonOffset operation row with
  | .error e, _ => return .error e
  | .ok _, .error e => return .error e
  | .ok (first, last), .ok offset => make (left first) (right last) offset

theorem spanning_eq (operation : Operation) (left right : Span → Nat) (row : Row) :
    spanning operation left right row = .ok (Row.spanning operation left right row) := by
  unfold spanning Row.spanning
  cases Row.ends operation row with
  | error e => rfl
  | ok ends =>
    cases Row.commonOffset operation row with
    | error e => rfl
    | ok offset => exact make_eq _ _ offset

/-- The gaps between neighbours, counted from an offset. -/
def gaps (offset : Nat) : Row → Checked (Except Fault (List Span))
  | a :: b :: rest => do
    match ← make a.stop b.start offset with
    | .error e => return .error e
    | .ok gap =>
      let others ← gaps offset (b :: rest)
      return others.map (gap :: ·)
  | _ => return .ok []

theorem gaps_eq (offset : Nat) (row : Row) : gaps offset row = .ok (Row.gaps offset row) := by
  fun_induction Row.gaps offset row with
  | case1 a b rest ih =>
    unfold gaps
    rw [make_eq, ih]
    cases Span.make a.stop b.start offset <;> rfl
  | case2 row hshort =>
    unfold gaps
    split
    · exact absurd rfl (hshort _ _ _)
    · rfl

/-- The gaps between neighbours of a row with a common offset. -/
def inBetween (row : Row) : Checked (Except Fault (List Span)) :=
  match Row.commonOffset .inBetween row with
  | .error e => return .error e
  | .ok offset => gaps offset row

theorem inBetween_eq (row : Row) : inBetween row = .ok (Row.inBetween row) := by
  unfold inBetween Row.inBetween
  cases Row.commonOffset .inBetween row with
  | error e => rfl
  | ok offset => exact gaps_eq offset row

/-- Each span ends before the next one starts, at most `gap` positions away. -/
def seqBeforeWithin (gap : Nat) : Row → Checked Bool
  | a :: b :: rest =>
    if a.before b then do
      let room ← minus b.start a.stop
      if room ≤ gap then seqBeforeWithin gap (b :: rest) else return false
    else return false
  | _ => return true

theorem seqBeforeWithin_eq (gap : Nat) (row : Row) :
    seqBeforeWithin gap row = .ok (Row.seqBeforeWithin gap row) := by
  unfold Row.seqBeforeWithin
  induction row with
  | nil => rfl
  | cons a rest ih =>
    cases rest with
    | nil => rfl
    | cons b rest =>
      unfold seqBeforeWithin Row.chained
      by_cases hbefore : a.before b = true
      · have hle : a.stop ≤ b.start := by
          simp only [Span.before, decide_eq_true_eq] at hbefore
          omega
        rw [if_pos hbefore, minus_eq hle, ok_bind, hbefore]
        by_cases hgap : b.start - a.stop ≤ gap
        · rw [if_pos hgap, ih, decide_eq_true hgap]
          rfl
        · rw [if_neg hgap, decide_eq_false hgap]
          rfl
      · rw [if_neg hbefore, Bool.eq_false_iff.mpr hbefore]
        rfl

/-- The distance between two spans compares with a number. -/
def distanceHolds (comparison : Comparison) (n : Nat) : Row → Checked Bool
  | [a, b] =>
    if a.offset == b.offset && a.stop ≤ b.start then do
      let room ← minus b.start a.stop
      return comparison.holds room n
    else return false
  | _ => return false

theorem distanceHolds_eq (comparison : Comparison) (n : Nat) (row : Row) :
    distanceHolds comparison n row = .ok (Query.Predicate.distanceHolds comparison n row) := by
  match row with
  | [a, b] =>
    simp only [distanceHolds, Query.Predicate.distanceHolds]
    by_cases h : (a.offset == b.offset && a.stop ≤ b.start) = true
    · have hle : a.stop ≤ b.start := by simp_all
      rw [if_pos h, minus_eq hle, h]
      rfl
    · rw [if_neg h, Bool.eq_false_iff.mpr h]
      rfl
  | [] => rfl
  | [a] => rfl
  | a :: b :: c :: rest => rfl

end Checked

end TaggedText
