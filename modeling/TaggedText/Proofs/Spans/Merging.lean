/-
# What merging keeps

Merging goes through the sorted spans with a current span, and so it takes them in runs: each span
of the merged list is the hull of spans that follow each other in the sorted list (`Run`, `InRuns`).
Which positions are covered, the order of the merged list, and that merging it again changes nothing
are told run by run.  The sum of it is `merging_keeps_positions`.

A run ends at a span with another offset even if the next span after that would still belong to it.
So merged spans with one offset may intersect, if spans of that offset that intersect have a span of
another offset between them in the sorted list (`merging_stops_at_other_offsets`), **and only then**
(`merged_spans_are_apart_unless_interrupted`).
-/
import TaggedText.Proofs.Outcome
import TaggedText.Proofs.Spans.Covering
import TaggedText.Spans.Merge
import Mathlib.Data.List.Permutation

namespace TaggedText

/-! ## 1. Hulls -/

namespace Span

variable {a b c : Span} {p : Nat}

/-- Two spans with no room between them merge into their hull. -/
theorem merge_eq_ok (hoffset : a.offset = b.offset) (hab : a.start ≤ b.stop)
    (hba : b.start ≤ a.stop) : a.merge b = .ok (a.hull b) := by
  have happart : ¬ (a.stop < b.start ∨ b.stop < a.start) := by omega
  rw [merge, if_neg happart, if_neg (not_not.mpr hoffset)]

/-- A hull without room between its two spans has no more positions than they have. -/
theorem holds_hull (hab : a.start ≤ b.stop) (hba : b.start ≤ a.stop) :
    (a.hull b).Holds p ↔ a.Holds p ∨ b.Holds p := by
  have ha := a.start_le_stop
  have hb := b.start_le_stop
  simp only [Holds, hull]
  omega

/-- The hull of two spans with one offset is not after the greater one, nor before the lesser
one. -/
theorem hull_between (hoffset : a.offset = b.offset) (h : le a b = true) :
    le a (a.hull b) = true ∧ le (a.hull b) b = true := by
  simp only [le_iff, hull] at h ⊢
  omega

end Span

namespace Spans

variable {contiguous : Bool} {a b c current next : Span} {spans members rest merged : List Span}
variable {offset p x : Nat}

/-- A span that joins the current one leaves no room to it. -/
theorem touches_of_joins (h : joins contiguous current next = true) :
    current.start ≤ next.stop ∧ next.start ≤ current.stop := by
  have hcurrent := current.start_le_stop
  have hnext := next.start_le_stop
  simp only [joins, Bool.or_eq_true, Bool.and_eq_true, Span.intersects_iff, Span.meets,
    beq_iff_eq] at h
  omega

/-! ## 2. Runs -/

/-- Spans, one after the other, that are merged into one. -/
inductive Run (contiguous : Bool) : List Span → Span → Prop
  | one (a : Span) : Run contiguous [a] a
  | widened {members : List Span} {current next : Span} (hrun : Run contiguous members current)
      (hjoins : joins contiguous current next = true) (hoffset : current.offset = next.offset) :
      Run contiguous (members ++ [next]) (current.hull next)

/-- A list in runs, and the spans that the runs are merged into.  The span behind a run does not
join what the run has been merged into. -/
inductive InRuns (contiguous : Bool) : List Span → List Span → Prop
  | nil : InRuns contiguous [] []
  | run {members rest merged : List Span} {current : Span} (hrun : Run contiguous members current)
      (hends : ∀ next ∈ rest.head?, joins contiguous current next = false)
      (hrest : InRuns contiguous rest merged) :
      InRuns contiguous (members ++ rest) (current :: merged)

/-- **Going through spans with a current one takes them in runs.** -/
theorem inRuns_of_sweep (hrun : Run contiguous members current)
    (h : sweep contiguous current rest = .ok merged) :
    InRuns contiguous (members ++ rest) merged := by
  induction rest generalizing members current merged with
  | nil =>
    cases h
    exact .run hrun (by simp) .nil
  | cons next rest ih =>
    rw [sweep] at h
    split at h
    · next hjoins =>
      obtain ⟨hull, hmerge, h⟩ := exists_of_bind_ok h
      obtain ⟨hcurrent, hnext⟩ := touches_of_joins hjoins
      by_cases hoffset : current.offset = next.offset
      · rw [Span.merge_eq_ok hoffset hcurrent hnext] at hmerge
        cases hmerge
        rw [List.append_cons]
        exact ih (hrun.widened hjoins hoffset) h
      · rw [Span.merge, if_neg (by omega), if_pos hoffset] at hmerge
        cases hmerge
    · next hjoins =>
      obtain ⟨others, hothers, rfl⟩ := exists_of_map_ok h
      refine .run hrun ?_ (ih (.one next) hothers)
      intro first hfirst
      cases hfirst
      exact Bool.eq_false_iff.mpr hjoins

theorem inRuns_of_merge (h : merge contiguous spans = .ok merged) :
    InRuns contiguous (Span.sort spans) merged := by
  rw [merge] at h
  split at h
  · next hnil =>
    cases h
    rw [hnil]
    exact .nil
  · next first rest hsort =>
    rw [hsort]
    exact inRuns_of_sweep (.one first) h

/-- **Merging fails only if spans of different offsets meet and are to be merged.** -/
theorem exists_sweep (h : contiguous = true → ∀ a ∈ rest, a.offset = current.offset) :
    ∃ merged, sweep contiguous current rest = .ok merged := by
  induction rest generalizing current with
  | nil => exact ⟨[current], rfl⟩
  | cons next rest ih =>
    rw [sweep]
    split
    · next hjoins =>
      obtain ⟨hcurrent, hnext⟩ := touches_of_joins hjoins
      have hoffset : current.offset = next.offset := by
        simp only [joins, Bool.or_eq_true, Bool.and_eq_true, beq_iff_eq] at hjoins
        rcases hjoins with ⟨-, hoffset⟩ | ⟨hcontiguous, -⟩
        · exact hoffset
        · exact (h hcontiguous next List.mem_cons_self).symm
      rw [Span.merge_eq_ok hoffset hcurrent hnext]
      exact ih fun hcontiguous a ha => h hcontiguous a (List.mem_cons_of_mem _ ha)
    · have hrest : contiguous = true → ∀ a ∈ rest, a.offset = next.offset := by
        intro hcontiguous a ha
        rw [h hcontiguous a (List.mem_cons_of_mem _ ha), h hcontiguous next List.mem_cons_self]
      obtain ⟨merged, hmerged⟩ := ih hrest
      rw [hmerged]
      exact ⟨current :: merged, rfl⟩

theorem exists_merge (contiguous : Bool) (spans : List Span)
    (h : contiguous = true → ∀ a ∈ spans, ∀ b ∈ spans, a.offset = b.offset) :
    ∃ merged, merge contiguous spans = .ok merged := by
  rw [merge]
  split
  · exact ⟨[], rfl⟩
  · next first rest hsort =>
    have hmem : ∀ a ∈ first :: rest, a ∈ spans := by
      intro a ha
      rw [← hsort] at ha
      exact Span.mem_sort.mp ha
    refine exists_sweep fun hcontiguous a ha => ?_
    exact h hcontiguous a (hmem a (List.mem_cons_of_mem _ ha)) first (hmem first List.mem_cons_self)

/-! ## 3. One run -/

namespace Run

theorem ne_nil (h : Run contiguous members current) : members ≠ [] := by
  cases h <;> simp

theorem offset_eq (h : Run contiguous members current) : ∀ a ∈ members,
    a.offset = current.offset := by
  induction h with
  | one a => simp
  | widened hrun hjoins hoffset ih =>
    intro a ha
    rcases List.mem_append.mp ha with ha | ha
    · exact ih a ha
    · rw [List.mem_singleton.mp ha]
      exact hoffset.symm

theorem within (h : Run contiguous members current) : ∀ a ∈ members,
    current.start ≤ a.start ∧ a.stop ≤ current.stop := by
  induction h with
  | one a => simp
  | @widened members current next hrun hjoins hoffset ih =>
    intro a ha
    rcases List.mem_append.mp ha with ha | ha
    · obtain ⟨hstart, hstop⟩ := ih a ha
      exact ⟨(Nat.min_le_left _ _).trans hstart, hstop.trans (Nat.le_max_left _ _)⟩
    · rw [List.mem_singleton.mp ha]
      exact ⟨Nat.min_le_right _ _, Nat.le_max_right _ _⟩

/-- Every position of the merged span lies in a member. -/
theorem exists_holds (h : Run contiguous members current) (hp : current.Holds p) :
    ∃ a ∈ members, a.Holds p := by
  induction h with
  | one a => exact ⟨a, List.mem_singleton_self a, hp⟩
  | widened hrun hjoins hoffset ih =>
    obtain ⟨hcurrent, hnext⟩ := touches_of_joins hjoins
    rcases (Span.holds_hull hcurrent hnext).mp hp with hp | hp
    · obtain ⟨a, ha, hp⟩ := ih hp
      exact ⟨a, List.mem_append_left _ ha, hp⟩
    · exact ⟨_, List.mem_append_right _ (List.mem_singleton_self _), hp⟩

/-- Every place from the first border of the merged span to the last is one of a member. -/
theorem exists_reaches (h : Run contiguous members current) (hstart : current.start ≤ x)
    (hstop : x ≤ current.stop) : ∃ a ∈ members, a.start ≤ x ∧ x ≤ a.stop := by
  induction h with
  | one a => exact ⟨a, List.mem_singleton_self a, hstart, hstop⟩
  | @widened members current next hrun hjoins hoffset ih =>
    obtain ⟨hcurrent, hnext⟩ := touches_of_joins hjoins
    by_cases hx : current.start ≤ x ∧ x ≤ current.stop
    · obtain ⟨a, ha, hx⟩ := ih hx.1 hx.2
      exact ⟨a, List.mem_append_left _ ha, hx⟩
    · have := current.start_le_stop
      simp only [Span.hull] at hstart hstop
      exact ⟨next, List.mem_append_right _ (List.mem_singleton_self _), by omega, by omega⟩

/-- **What intersects the merged span intersects a member.** -/
theorem exists_intersects (h : Run contiguous members current)
    (hb : current.intersects b = true) : ∃ a ∈ members, a.intersects b = true := by
  by_cases hshares : current.Shares b
  · obtain ⟨p, hcurrent, hp⟩ := hshares
    obtain ⟨a, ha, hap⟩ := h.exists_holds hcurrent
    exact ⟨a, ha, Span.Shares.intersects ⟨p, hap, hp⟩⟩
  · have hcurrent := current.start_le_stop
    have hbstop := b.start_le_stop
    rw [Span.shares_iff] at hshares
    rw [Span.intersects_iff] at hb
    obtain ⟨a, ha, hstart, hstop⟩ :=
      h.exists_reaches (x := max current.start b.start) (by omega) (by omega)
    have hwithin := h.within a ha
    refine ⟨a, ha, ?_⟩
    rw [Span.intersects_iff]
    omega

/-- **The merged span is where its run is in the order of spans**: what is not before a member is
not before it, and what is not behind a member is not behind it. -/
theorem between (h : Run contiguous members current) (hsorted : Span.Sorted members) :
    (∀ b, (∀ a ∈ members, Span.le a b = true) → Span.le current b = true) ∧
      ∀ b, (∀ a ∈ members, Span.le b a = true) → Span.le b current = true := by
  induction h with
  | one a =>
    exact ⟨fun b hb => hb a (List.mem_singleton_self a), fun b hb => hb a (List.mem_singleton_self a)⟩
  | @widened members current next hrun hjoins hoffset ih =>
    obtain ⟨hmembers, -, hnext⟩ := Span.sorted_append.mp hsorted
    obtain ⟨hbefore, hbehind⟩ := ih hmembers
    have hle : Span.le current next = true :=
      hbefore next fun a ha => hnext a ha next (List.mem_singleton_self next)
    obtain ⟨hlow, hhigh⟩ := Span.hull_between hoffset hle
    constructor
    · intro b hb
      exact Span.le_trans hhigh (hb next (List.mem_append_right _ (List.mem_singleton_self _)))
    · intro b hb
      exact Span.le_trans (hbehind b fun a ha => hb a (List.mem_append_left _ ha)) hlow

end Run

/-! ## 4. A list in runs -/

namespace InRuns

/-- Every merged span has a run. -/
theorem exists_run (h : InRuns contiguous spans merged) : ∀ e ∈ merged,
    ∃ members, Run contiguous members e ∧ members.Sublist spans := by
  induction h with
  | nil => simp
  | @run members rest merged current hrun hends hrest ih =>
    intro e he
    rcases List.mem_cons.mp he with rfl | he
    · exact ⟨members, hrun, List.sublist_append_left members rest⟩
    · obtain ⟨others, hothers, hsublist⟩ := ih e he
      exact ⟨others, hothers, hsublist.trans (List.sublist_append_right members rest)⟩

theorem eq_nil (h : InRuns contiguous [] merged) : merged = [] := by
  refine List.eq_nil_iff_forall_not_mem.mpr fun e he => ?_
  obtain ⟨members, hrun, hsublist⟩ := h.exists_run e he
  exact hrun.ne_nil (List.sublist_nil.mp hsublist)

/-- Every span goes into a merged one with its offset. -/
theorem exists_within (h : InRuns contiguous spans merged) : ∀ a ∈ spans,
    ∃ e ∈ merged, e.offset = a.offset ∧ e.start ≤ a.start ∧ a.stop ≤ e.stop := by
  induction h with
  | nil => simp
  | run hrun hends hrest ih =>
    intro a ha
    rcases List.mem_append.mp ha with ha | ha
    · exact ⟨_, List.mem_cons_self, (hrun.offset_eq a ha).symm, hrun.within a ha⟩
    · obtain ⟨e, he, hwithin⟩ := ih a ha
      exact ⟨e, List.mem_cons_of_mem _ he, hwithin⟩

/-- Only empty spans are merged into an empty one. -/
theorem exists_isEmpty (h : InRuns contiguous spans merged) {e : Span} (he : e ∈ merged)
    (hempty : e.isEmpty = true) : ∃ a ∈ spans, a.isEmpty = true := by
  obtain ⟨members, hrun, hsublist⟩ := h.exists_run e he
  obtain ⟨a, ha⟩ := List.exists_mem_of_ne_nil members hrun.ne_nil
  obtain ⟨hstart, hstop⟩ := hrun.within a ha
  refine ⟨a, hsublist.subset ha, ?_⟩
  have := a.start_le_stop
  simp only [Span.isEmpty, beq_iff_eq] at hempty ⊢
  omega

/-- What intersects a merged span intersects a span with its offset. -/
theorem exists_intersects (h : InRuns contiguous spans merged) {e : Span} (he : e ∈ merged)
    (hb : e.intersects b = true) :
    ∃ a ∈ spans, a.offset = e.offset ∧ a.intersects b = true := by
  obtain ⟨members, hrun, hsublist⟩ := h.exists_run e he
  obtain ⟨a, ha, hb⟩ := hrun.exists_intersects hb
  exact ⟨a, hsublist.subset ha, hrun.offset_eq a ha, hb⟩

/-- **Merging covers what has been covered, offset by offset.** -/
theorem covered (h : InRuns contiguous spans merged) :
    Covered merged offset p ↔ Covered spans offset p := by
  constructor
  · rintro ⟨e, he, hoffset, hp⟩
    obtain ⟨members, hrun, hsublist⟩ := h.exists_run e he
    obtain ⟨a, ha, hp⟩ := hrun.exists_holds hp
    exact ⟨a, hsublist.subset ha, (hrun.offset_eq a ha).trans hoffset, hp⟩
  · rintro ⟨a, ha, hoffset, hstart, hstop⟩
    obtain ⟨e, he, heq, hwithin⟩ := h.exists_within a ha
    exact ⟨e, he, heq.trans hoffset, by omega, by omega⟩

/-- What is not behind any span is not behind any merged one. -/
theorem le_of_forall_le (h : InRuns contiguous spans merged) (hsorted : Span.Sorted spans)
    (hb : ∀ a ∈ spans, Span.le b a = true) : ∀ e ∈ merged, Span.le b e = true := by
  intro e he
  obtain ⟨members, hrun, hsublist⟩ := h.exists_run e he
  exact (hrun.between (hsorted.sublist hsublist)).2 b fun a ha => hb a (hsublist.subset ha)

/-- A merged span is not behind the spans that follow its run. -/
theorem le_of_mem_rest (hrun : Run contiguous members current)
    (hsorted : Span.Sorted (members ++ rest)) : ∀ b ∈ rest, Span.le current b = true := by
  intro b hb
  obtain ⟨hmembers, -, hrest⟩ := Span.sorted_append.mp hsorted
  exact (hrun.between hmembers).1 b fun a ha => hrest a ha b hb

/-- **Merged spans are sorted.** -/
theorem sorted (h : InRuns contiguous spans merged) (hsorted : Span.Sorted spans) :
    Span.Sorted merged := by
  induction h with
  | nil => exact .nil
  | run hrun hends hrest ih =>
    have hsortedRest := (Span.sorted_append.mp hsorted).2.1
    refine List.pairwise_cons.mpr ⟨?_, ih hsortedRest⟩
    exact hrest.le_of_forall_le hsortedRest (le_of_mem_rest hrun hsorted)

/-- The first merged span starts where the first span does and goes as far as that. -/
theorem head (h : InRuns contiguous (next :: rest) merged)
    (hsorted : Span.Sorted (next :: rest)) :
    ∃ e others, merged = e :: others ∧ e.offset = next.offset ∧ e.start = next.start ∧
      Span.le next e = true := by
  generalize hspans : next :: rest = spans at h
  cases h with
  | nil => cases hspans
  | @run members behind others e hrun hends hrest =>
    obtain ⟨first, more, rfl⟩ := List.exists_cons_of_ne_nil hrun.ne_nil
    cases hspans
    have hmem : next ∈ next :: more := List.mem_cons_self
    have hle : Span.le next e = true := by
      have hmembers : Span.Sorted (next :: more) :=
        hsorted.sublist (List.sublist_append_left (next :: more) behind)
      exact (hrun.between hmembers).2 next hmembers.head_le
    obtain ⟨hstart, -⟩ := hrun.within next hmem
    refine ⟨e, others, rfl, (hrun.offset_eq next hmem).symm, ?_, hle⟩
    rw [Span.le_iff] at hle
    omega

end InRuns

/-- A span that does not join the current one still does not when the spans behind it have been
merged into it. -/
theorem joins_eq_false_of_wider {e : Span} (h : joins contiguous current next = false)
    (hle : Span.le current next = true) (hoffset : e.offset = next.offset)
    (hstart : e.start = next.start) (hwider : Span.le next e = true) :
    joins contiguous current e = false := by
  rw [← Bool.not_eq_true] at h ⊢
  intro he
  apply h
  simp only [joins, Bool.or_eq_true, Bool.and_eq_true, Span.meets, beq_iff_eq] at he ⊢
  rcases he with ⟨hintersects, he⟩ | ⟨hcontiguous, he⟩
  · exact .inl ⟨Span.intersects_of_between hle hwider hintersects, he.trans hoffset⟩
  · exact .inr ⟨hcontiguous, he.trans hstart⟩

/-- No merged span joins the one before it. -/
theorem InRuns.isChain (h : InRuns contiguous spans merged) (hsorted : Span.Sorted spans) :
    merged.IsChain fun e e' => joins contiguous e e' = false := by
  induction h with
  | nil => exact .nil
  | @run members rest merged current hrun hends hrest ih =>
    have hsortedRest := (Span.sorted_append.mp hsorted).2.1
    cases rest with
    | nil =>
      rw [hrest.eq_nil]
      exact .singleton current
    | cons next rest =>
      obtain ⟨e, others, rfl, hoffset, hstart, hwider⟩ := hrest.head hsortedRest
      refine .cons_cons ?_ (ih hsortedRest)
      exact joins_eq_false_of_wider (hends next rfl)
        (le_of_mem_rest hrun hsorted next List.mem_cons_self) hoffset hstart hwider

/-- Spans that do not join the one before them are left as they are. -/
theorem sweep_of_isChain
    (h : (current :: rest).IsChain fun e e' => joins contiguous e e' = false) :
    sweep contiguous current rest = .ok (current :: rest) := by
  induction rest generalizing current with
  | nil => rfl
  | cons next rest ih =>
    obtain ⟨hnext, hrest⟩ := List.isChain_cons_cons.mp h
    rw [sweep, if_neg (Bool.eq_false_iff.mp hnext), ih hrest]
    rfl

/-- **Merging what has been merged changes nothing.** -/
theorem merge_of_merge (h : merge contiguous spans = .ok merged) :
    merge contiguous merged = .ok merged := by
  have hruns := inRuns_of_merge h
  have hsorted := hruns.sorted (Span.sorted_sort spans)
  have hchain := hruns.isChain (Span.sorted_sort spans)
  rw [merge, Span.sort_of_sorted hsorted]
  cases merged with
  | nil => rfl
  | cons first rest => exact sweep_of_isChain hchain

/-! ## 5. Merged spans that intersect -/

/-- A span of another offset stands between the two in the order of spans. -/
def Interrupted (spans : List Span) (a c : Span) : Prop :=
  ∃ b ∈ spans, b.offset ≠ a.offset ∧ Span.le a b = true ∧ Span.le b c = true

instance (spans : List Span) (a c : Span) : Decidable (Interrupted spans a c) :=
  inferInstanceAs (Decidable (∃ b ∈ spans, _))

/-- Only spans with one offset intersect. -/
def OffsetsApart (spans : List Span) : Prop :=
  ∀ a ∈ spans, ∀ b ∈ spans, a.intersects b = true → a.offset = b.offset

instance (spans : List Span) : Decidable (OffsetsApart spans) :=
  inferInstanceAs (Decidable (∀ a ∈ spans, ∀ b ∈ spans, _))

namespace InRuns

/-- **Where merged spans intersect, spans of theirs do, and these are interrupted.** -/
theorem pairwise_interrupted (h : InRuns contiguous spans merged)
    (hsorted : Span.Sorted spans) :
    merged.Pairwise fun e e' => e.intersects e' = true →
      ∃ a ∈ spans, ∃ c ∈ spans, a.offset = e.offset ∧ c.offset = e'.offset ∧
        a.intersects c = true ∧ Interrupted spans a c := by
  induction h with
  | nil => exact .nil
  | @run members rest merged current hrun hends hrest ih =>
    obtain ⟨-, hsortedRest, hbehind⟩ := Span.sorted_append.mp hsorted
    refine List.pairwise_cons.mpr ⟨?_, (ih hsortedRest).imp ?_⟩
    · intro e he hintersects
      obtain ⟨a, ha, hae⟩ := hrun.exists_intersects hintersects
      obtain ⟨c, hc, hoffset, hca⟩ := hrest.exists_intersects he (Span.intersects_symm hae)
      obtain ⟨next, others, rfl⟩ := List.exists_cons_of_ne_nil (List.ne_nil_of_mem hc)
      have hnext := hsortedRest.head_le
      -- The span that ended the run has another offset: it stands between the two merged spans, and
      -- would have joined the first one otherwise.
      have hother : next.offset ≠ a.offset := by
        intro hsame
        have hends' := hends next rfl
        have hcurrent : current.intersects next = true := by
          refine Span.intersects_of_between ?_ ?_ hintersects
          · exact le_of_mem_rest hrun hsorted next List.mem_cons_self
          · exact hrest.le_of_forall_le hsortedRest hnext e he
        simp [joins, hcurrent, hsame, hrun.offset_eq a ha] at hends'
      refine ⟨a, List.mem_append_left _ ha, c, List.mem_append_right _ hc, hrun.offset_eq a ha,
        hoffset, Span.intersects_symm hca, next, List.mem_append_right _ List.mem_cons_self, hother,
        hbehind a ha next List.mem_cons_self, hnext c hc⟩
    · intro e e' hinterrupted hintersects
      obtain ⟨a, ha, c, hc, hae, hce, hac, b, hb, hbetween⟩ := hinterrupted hintersects
      exact ⟨a, List.mem_append_right _ ha, c, List.mem_append_right _ hc, hae, hce, hac, b,
        List.mem_append_right _ hb, hbetween⟩

/-- **Spans with a shared position that are interrupted go into two merged spans.** -/
theorem not_interrupted (h : InRuns contiguous spans merged) (hsorted : Span.Sorted spans)
    (hapart : merged.Pairwise fun e e' => e.offset = e'.offset → e.intersects e' = false) :
    ∀ a ∈ spans, ∀ c ∈ spans, a.offset = c.offset → a.Shares c → ¬ Interrupted spans a c := by
  induction h with
  | nil => simp
  | @run members rest merged current hrun hends hrest ih =>
    obtain ⟨-, hsortedRest, hbehind⟩ := Span.sorted_append.mp hsorted
    obtain ⟨hcurrent, hapartRest⟩ := List.pairwise_cons.mp hapart
    rintro a ha c hc hac hshares ⟨b, hb, hother, hab, hbc⟩
    -- Spans of different offsets are not in the same place of the order, so the run before is over
    -- for all that follows a span from behind it.
    have hmove : ∀ d ∈ rest, ∀ e ∈ members ++ rest, d.offset ≠ e.offset →
        Span.le d e = true → e ∈ rest := by
      intro d hd e he hne hde
      rcases List.mem_append.mp he with he | he
      · exact absurd (congrArg Span.offset (Span.le_antisymm hde (hbehind e he d hd))) hne
      · exact he
    rcases List.mem_append.mp ha with ha | ha
    · have hoffset := hrun.offset_eq a ha
      have hbrest : b ∈ rest := by
        rcases List.mem_append.mp hb with hb | hb
        · exact absurd ((hrun.offset_eq b hb).trans hoffset.symm) hother
        · exact hb
      have hcrest : c ∈ rest := hmove b hbrest c hc (fun hbc => hother (hbc.trans hac.symm)) hbc
      obtain ⟨e, he, heoffset, hwithin⟩ := hrest.exists_within c hcrest
      have hawithin := hrun.within a ha
      have hintersects : current.intersects e = true := by
        obtain ⟨p, ⟨hap, hap'⟩, hcp, hcp'⟩ := hshares
        exact Span.Shares.intersects ⟨p, ⟨by omega, by omega⟩, by omega, by omega⟩
      have hsame : current.offset = e.offset := hoffset.symm.trans (hac.trans heoffset.symm)
      exact Bool.false_ne_true ((hcurrent e he hsame).symm.trans hintersects)
    · have hbrest : b ∈ rest := hmove a ha b hb hother.symm hab
      have hcrest : c ∈ rest := hmove b hbrest c hc (fun hbc => hother (hbc.trans hac.symm)) hbc
      exact ih hsortedRest hapartRest a ha c hcrest hac hshares ⟨b, hbrest, hother, hab, hbc⟩

/-- If spans of different offsets do not intersect, no two merged spans do. -/
theorem pairwise_of_offsetsApart (h : InRuns contiguous spans merged)
    (hsorted : Span.Sorted spans) (hapart : OffsetsApart spans) :
    merged.Pairwise fun e e' => e.intersects e' = false := by
  refine (h.pairwise_interrupted hsorted).imp fun {e e'} hinterrupted => ?_
  rw [← Bool.not_eq_true]
  intro hintersects
  obtain ⟨a, ha, c, hc, -, -, hac, b, hb, hother, hab, hbc⟩ := hinterrupted hintersects
  exact hother (hapart a ha b hb (Span.intersects_of_between hab hbc hac)).symm

/-- If spans that meet are merged too, there is room between any two merged spans of one offset. -/
theorem pairwise_gap (h : InRuns true spans merged) (hsorted : Span.Sorted spans)
    (hsame : ∀ a ∈ spans, ∀ b ∈ spans, a.offset = b.offset) :
    merged.Pairwise fun e e' => e.stop < e'.start := by
  induction h with
  | nil => exact .nil
  | @run members rest merged current hrun hends hrest ih =>
    have hsortedRest := (Span.sorted_append.mp hsorted).2.1
    refine List.pairwise_cons.mpr ⟨?_, ih hsortedRest fun a ha b hb =>
      hsame a (List.mem_append_right _ ha) b (List.mem_append_right _ hb)⟩
    intro e he
    have hne : rest ≠ [] := by
      rintro rfl
      rw [hrest.eq_nil] at he
      cases he
    obtain ⟨next, others, rfl⟩ := List.exists_cons_of_ne_nil hne
    obtain ⟨first, hfirst⟩ := List.exists_mem_of_ne_nil members hrun.ne_nil
    have hoffset : current.offset = next.offset := by
      rw [← hrun.offset_eq first hfirst]
      exact hsame first (List.mem_append_left _ hfirst) next
        (List.mem_append_right _ List.mem_cons_self)
    have hends' := hends next rfl
    simp only [joins, hoffset, beq_self_eq_true, Bool.and_true, Bool.true_and, Bool.or_eq_false_iff,
      Span.meets, beq_eq_false_iff_ne] at hends'
    obtain ⟨hclear, -⟩ := Span.clear_of_le
      (le_of_mem_rest hrun hsorted next List.mem_cons_self) hends'.1
    have hbehind := hrest.le_of_forall_le hsortedRest hsortedRest.head_le e he
    rw [Span.le_iff] at hbehind
    omega

end InRuns

/-! ## 6. A merged list -/

theorem covered_of_merge (h : merge contiguous spans = .ok merged) :
    Covered merged offset p ↔ Covered spans offset p :=
  (inRuns_of_merge h).covered.trans covered_sort

/-- Merging clears spans of each other, if only those with one offset intersect. -/
theorem clear_of_merge (h : merge contiguous spans = .ok merged) (hapart : OffsetsApart spans) :
    merged.Pairwise Span.Clear := by
  have hruns := inRuns_of_merge h
  have hsorted := Span.sorted_sort spans
  have hapart' : OffsetsApart (Span.sort spans) := fun a ha b hb =>
    hapart a (Span.mem_sort.mp ha) b (Span.mem_sort.mp hb)
  exact Span.pairwise_clear (hruns.sorted hsorted) (hruns.pairwise_of_offsetsApart hsorted hapart')

/-- **Spans counted from the beginning of the text can be merged**, into spans that are counted from
there too and are clear of each other. -/
theorem exists_merge_of_offset_zero (h : ∀ a ∈ spans, a.offset = 0) :
    ∃ merged, merge false spans = .ok merged ∧ merged.Pairwise Span.Clear ∧
      ∀ e ∈ merged, e.offset = 0 := by
  obtain ⟨merged, hmerged⟩ := exists_merge false spans (by simp)
  refine ⟨merged, hmerged, clear_of_merge hmerged fun a ha b hb _ => ?_, fun e he => ?_⟩
  · rw [h a ha, h b hb]
  · obtain ⟨members, hrun, hsublist⟩ := (inRuns_of_merge hmerged).exists_run e he
    obtain ⟨a, ha⟩ := List.exists_mem_of_ne_nil members hrun.ne_nil
    rw [← hrun.offset_eq a ha]
    exact h a (Span.mem_sort.mp (hsublist.subset ha))

/-! ## 7. What merging keeps, and what it leaves -/

/-- **Merging spans that intersect does not fail.  Its result is sorted, covers at every offset the
positions that have been covered, and is not changed by merging it again.**  If all spans have one
offset, this holds too if spans that meet are merged as well, and no two spans of the result
intersect, nor meet in that case. -/
theorem merging_keeps_positions (spans : List Span) :
    (∃ merged, merge false spans = .ok merged ∧ Span.Sorted merged ∧
      (∀ offset p, Covered merged offset p ↔ Covered spans offset p) ∧
      merge false merged = .ok merged) ∧
    ((∀ a ∈ spans, ∀ b ∈ spans, a.offset = b.offset) → ∀ contiguous, ∃ merged,
      merge contiguous spans = .ok merged ∧ Span.Sorted merged ∧
      (∀ offset p, Covered merged offset p ↔ Covered spans offset p) ∧
      merge contiguous merged = .ok merged ∧
      merged.Pairwise fun a b => a.intersects b = false ∧
        (contiguous = true → a.meets b = false ∧ b.meets a = false)) := by
  have hkeeps : ∀ {contiguous merged}, merge contiguous spans = .ok merged →
      Span.Sorted merged ∧ (∀ offset p, Covered merged offset p ↔ Covered spans offset p) ∧
      merge contiguous merged = .ok merged := by
    intro contiguous merged hmerged
    have hruns := inRuns_of_merge hmerged
    exact ⟨hruns.sorted (Span.sorted_sort spans),
      fun offset p => hruns.covered.trans covered_sort, merge_of_merge hmerged⟩
  constructor
  · obtain ⟨merged, hmerged⟩ := exists_merge false spans (by simp)
    exact ⟨merged, hmerged, hkeeps hmerged⟩
  · intro hsame contiguous
    obtain ⟨merged, hmerged⟩ := exists_merge contiguous spans fun _ => hsame
    obtain ⟨hsorted, hcovered, hagain⟩ := hkeeps hmerged
    have hruns := inRuns_of_merge hmerged
    have hsame' : ∀ a ∈ Span.sort spans, ∀ b ∈ Span.sort spans, a.offset = b.offset :=
      fun a ha b hb => hsame a (Span.mem_sort.mp ha) b (Span.mem_sort.mp hb)
    have hapart := hruns.pairwise_of_offsetsApart (Span.sorted_sort spans)
      fun a ha b hb _ => hsame' a ha b hb
    refine ⟨merged, hmerged, hsorted, hcovered, hagain, ?_⟩
    cases contiguous with
    | false => exact hapart.imp fun h => ⟨h, by simp⟩
    | true =>
      refine (hapart.and (hruns.pairwise_gap (Span.sorted_sort spans) hsame')).imp ?_
      rintro a b ⟨hab, hgap⟩
      have ha := a.start_le_stop
      have hb := b.start_le_stop
      refine ⟨hab, fun _ => ?_⟩
      simp only [Span.meets, beq_eq_false_iff_ne]
      omega

/-- Nested, repeated, meeting and empty spans, not in order, with and without meeting ones. -/
theorem merging_keeps_positions_unordered :
    let spans : List Span := [⟨5, 8, 2, by decide⟩, ⟨3, 3, 2, by decide⟩, ⟨0, 3, 2, by decide⟩,
      ⟨1, 2, 2, by decide⟩, ⟨8, 9, 2, by decide⟩, ⟨5, 8, 2, by decide⟩, ⟨11, 11, 2, by decide⟩]
    (∀ a ∈ spans, ∀ b ∈ spans, a.offset = b.offset) ∧
    merge false spans = .ok [⟨0, 3, 2, by decide⟩, ⟨5, 8, 2, by decide⟩, ⟨8, 9, 2, by decide⟩,
      ⟨11, 11, 2, by decide⟩] ∧
    merge true spans = .ok [⟨0, 3, 2, by decide⟩, ⟨5, 9, 2, by decide⟩, ⟨11, 11, 2, by decide⟩] ∧
    ∀ contiguous, ∃ merged, merge contiguous spans = .ok merged ∧ Span.Sorted merged ∧
      (∀ offset p, Covered merged offset p ↔ Covered spans offset p) ∧
      merge contiguous merged = .ok merged ∧
      merged.Pairwise fun a b => a.intersects b = false ∧
        (contiguous = true → a.meets b = false ∧ b.meets a = false) := by
  intro spans
  have hsame : ∀ a ∈ spans, ∀ b ∈ spans, a.offset = b.offset := by decide
  exact ⟨hsame, by cbv, by cbv, (merging_keeps_positions spans).2 hsame⟩

/-- **Merged spans with one offset do not intersect if no two intersecting spans with one offset are
interrupted**, and they do if two spans with one offset that share a position are. -/
theorem merged_spans_are_apart_unless_interrupted (spans : List Span) :
    ∃ merged, merge false spans = .ok merged ∧
      ((∀ a ∈ spans, ∀ c ∈ spans, a.offset = c.offset → a.intersects c = true →
          ¬ Interrupted spans a c) →
        merged.Pairwise fun e e' => e.offset = e'.offset → e.intersects e' = false) ∧
      ((merged.Pairwise fun e e' => e.offset = e'.offset → e.intersects e' = false) →
        ∀ a ∈ spans, ∀ c ∈ spans, a.offset = c.offset → a.Shares c →
          ¬ Interrupted spans a c) := by
  obtain ⟨merged, hmerged⟩ := exists_merge false spans (by simp)
  have hruns := inRuns_of_merge hmerged
  have hsorted := Span.sorted_sort spans
  have hinterrupted : ∀ a c, Interrupted (Span.sort spans) a c ↔ Interrupted spans a c := by
    intro a c
    simp only [Interrupted, Span.mem_sort]
  refine ⟨merged, hmerged, ?_, ?_⟩
  · intro h
    refine (hruns.pairwise_interrupted hsorted).imp fun {e e'} hpair hoffset => ?_
    rw [← Bool.not_eq_true]
    intro hintersects
    obtain ⟨a, ha, c, hc, hae, hce, hac, hbetween⟩ := hpair hintersects
    refine h a (Span.mem_sort.mp ha) c (Span.mem_sort.mp hc) ?_ hac
      ((hinterrupted a c).mp hbetween)
    rw [hae, hce, hoffset]
  · intro hapart a ha c hc hac hshares hbetween
    exact hruns.not_interrupted hsorted hapart a (Span.mem_sort.mpr ha) c (Span.mem_sort.mpr hc)
      hac hshares ((hinterrupted a c).mpr hbetween)

/-- Spans of two offsets overlap, but those of one offset follow each other. -/
theorem merged_spans_are_apart_unless_interrupted_twice :
    let spans : List Span := [⟨5, 9, 1, by decide⟩, ⟨2, 6, 0, by decide⟩, ⟨0, 4, 0, by decide⟩,
      ⟨4, 7, 1, by decide⟩]
    let merged : List Span := [⟨0, 6, 0, by decide⟩, ⟨4, 9, 1, by decide⟩]
    (∀ a ∈ spans, ∀ c ∈ spans, a.offset = c.offset → a.intersects c = true →
      ¬ Interrupted spans a c) ∧
    merge false spans = .ok merged ∧
    merged.Pairwise fun e e' => e.offset = e'.offset → e.intersects e' = false := by
  intro spans merged
  have h : ∀ a ∈ spans, ∀ c ∈ spans, a.offset = c.offset → a.intersects c = true →
      ¬ Interrupted spans a c := by decide
  have hmerged : merge false spans = .ok merged := by cbv
  obtain ⟨merged', hmerged', hapart, -⟩ := merged_spans_are_apart_unless_interrupted spans
  cases hmerged.symm.trans hmerged'
  exact ⟨h, hmerged, hapart h⟩

/-- **A span of another offset keeps two spans apart that intersect**: the second one is left, though
it lies within the first. -/
theorem merging_stops_at_other_offsets :
    let spans : List Span := [⟨0, 10, 0, by decide⟩, ⟨1, 2, 1, by decide⟩, ⟨3, 4, 0, by decide⟩]
    merge false spans = .ok spans ∧ ¬ ∃ merged, merge false spans = .ok merged ∧
      merged.Pairwise fun e e' => e.offset = e'.offset → e.intersects e' = false := by
  intro spans
  have hmerged : merge false spans = .ok spans := by cbv
  refine ⟨hmerged, ?_⟩
  rintro ⟨merged, hmerged', hapart⟩
  cases hmerged.symm.trans hmerged'
  exact absurd hapart (by decide)

end Spans

end TaggedText
