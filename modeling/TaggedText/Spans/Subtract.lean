/-
# Taking parts out of spans

Each span loses the parts that the spans to discard cover: a beginning, an end, a part in the
middle, which splits it in two, or all of it.  Both lists are merged first.  The spans wait in a
queue; the part behind a cut in the middle goes back to the front of the queue.

The total length of the queue bounds the work: **what goes back to the queue is shorter in total
than the span that was taken from it.**
-/
import TaggedText.Spans.Merge

namespace TaggedText.Spans

/-- The total length of spans. -/
def totalLength : List Span → Nat
  | [] => 0
  | a :: rest => a.length + totalLength rest

/-- What is left of a span after cuts, and the parts split off behind a cut, the last one first.
The cuts end with the first that does not intersect what is left. -/
def trim (current : Span) : List Span → Except Fault (Option Span × List Span)
  | [] => .ok (some current, [])
  | cut :: rest =>
    if !current.intersects cut then .ok (some current, [])
    else if current.offset ≠ cut.offset then .error (.offsetsDiffer .subtraction)
    else if h : (cut.overlaps current || cut.starts current) = true then
      trim ⟨cut.stop, current.stop, current.offset, by
        simp [Span.overlaps, Span.starts] at h; omega⟩ rest
    else if h : cut.during current = true then
      let behind : Span := ⟨cut.stop, current.stop, current.offset, by
        simp [Span.during] at h; omega⟩
      (trim ⟨current.start, cut.start, current.offset, by
        simp [Span.during] at h; omega⟩ rest).map fun (left, split) => (left, split ++ [behind])
    else if h : (current.overlaps cut || cut.finishes current) = true then
      trim ⟨current.start, cut.start, current.offset, by
        simp [Span.overlaps, Span.finishes] at h; omega⟩ rest
    else .ok (none, [])

theorem totalLength_append (a b : List Span) :
    totalLength (a ++ b) = totalLength a + totalLength b := by
  induction a with
  | nil => simp [totalLength]
  | cons x a ih => simp [totalLength, ih, Nat.add_assoc]

/-- **The parts split off are shorter in total than the span they are split off from.** -/
theorem totalLength_trim {current : Span} {cuts : List Span} {left : Option Span}
    {split : List Span} (h : trim current cuts = .ok (left, split)) :
    split = [] ∨ totalLength split < current.length := by
  induction cuts generalizing current left split with
  | nil => simp [trim] at h; exact .inl h.2
  | cons cut rest ih =>
    unfold trim at h
    split at h
    · simp at h; exact .inl h.2
    split at h
    · simp at h
    split at h
    · rename_i hc
      rcases ih h with h' | h'
      · exact .inl h'
      · refine .inr (Nat.lt_of_lt_of_le h' ?_)
        simp [Span.overlaps, Span.starts] at hc
        have := cut.start_le_stop
        simp only [Span.length]; omega
    split at h
    · rename_i hc
      simp [Span.during] at hc
      have hcut := cut.start_le_stop
      simp only [] at h
      cases ht : trim ⟨current.start, cut.start, current.offset, by omega⟩ rest with
      | error e => rw [ht] at h; simp [Except.map] at h
      | ok r =>
        obtain ⟨left', split'⟩ := r
        rw [ht] at h
        simp [Except.map] at h
        obtain ⟨-, rfl⟩ := h
        refine .inr ?_
        rw [totalLength_append]
        rcases ih ht with rfl | h'
        · simp [totalLength, Span.length]; omega
        · have h'' : totalLength split' < cut.start - current.start := h'
          simp only [totalLength, Span.length] at h'' ⊢
          omega
    split at h
    · rename_i hc
      rcases ih h with h' | h'
      · exact .inl h'
      · refine .inr (Nat.lt_of_lt_of_le h' ?_)
        simp [Span.overlaps, Span.finishes] at hc
        have := cut.start_le_stop
        simp only [Span.length]; omega
    · simp at h; exact .inl h.2

/-- Taking merged cuts out of the spans in a queue.  Cuts before the first that intersects the
current span are not looked at again; when none intersects it, they all are. -/
def cutQueue (queue cuts : List Span) : Except Fault (List Span) :=
  match queue with
  | [] => .ok []
  | current :: waiting =>
    let ahead := cuts.dropWhile fun cut => !current.intersects cut
    match ahead with
    | [] => (cutQueue waiting cuts).map (current :: ·)
    | _ :: _ =>
      match _h : trim current ahead with
      | .error e => .error e
      | .ok (left, split) => (cutQueue (split ++ waiting) ahead).map (left.toList ++ ·)
termination_by (totalLength queue, queue.length)
decreasing_by
  · simp only [Prod.lex_def, totalLength, List.length_cons]
    omega
  · simp only [Prod.lex_def, totalLength_append]
    rcases totalLength_trim _h with rfl | h'
    · simp only [totalLength, List.length_cons, List.nil_append]
      omega
    · left
      simp only [totalLength]
      omega

/-- The spans without the parts that the spans to discard cover. -/
def subtract (spans discard : List Span) : Except Fault (List Span) :=
  (merge false spans).bind fun queue => (merge false discard).bind fun cuts => cutQueue queue cuts

end TaggedText.Spans
