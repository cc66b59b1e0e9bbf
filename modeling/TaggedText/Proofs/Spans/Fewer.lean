/-
# Merging fewer spans

Leaving out some of the spans makes the merged ones narrower: each of them lies in one of those that
all spans are merged into (`exists_wider`).

Nothing more can be said in general, as spans that are left out may have joined others.  But if
spans are only ever merged with spans of their kind, **merging those of one kind gives the merged
spans of that kind** (`merge_filter`).  The runs in which all spans are merged are then the runs of
the kind, and runs tell what merging gives (`merge_of_inRuns`).

Everything here is about merging spans that intersect, and about spans with one offset.
-/
import TaggedText.Proofs.Spans.Merging

namespace TaggedText

namespace Span

variable {a b c : Span} {spans : List Span}

/-- What is clear of a span is clear of what follows that in the order of spans. -/
theorem Clear.of_le (h : a.Clear b) (hle : Span.le b c = true) : a.Clear c := by
  rw [clear_iff] at h ⊢
  rw [le_iff] at hle
  omega

/-- Of spans each clear of all that follow, any two are clear of each other. -/
theorem clear_or_clear (h : spans.Pairwise Clear) (ha : a ∈ spans) (hb : b ∈ spans)
    (hne : a ≠ b) : a.Clear b ∨ b.Clear a := by
  have hsymm : Std.Symm fun a b : Span => a.Clear b ∨ b.Clear a := ⟨fun _ _ => Or.symm⟩
  have heither : spans.Pairwise fun a b => a.Clear b ∨ b.Clear a := h.imp Or.inl
  exact heither.forall ha hb hne

/-- Sorting and leaving out spans may be done in any order. -/
theorem sort_filter (p : Span → Bool) (spans : List Span) :
    sort (spans.filter p) = (sort spans).filter p := by
  apply List.Perm.eq_of_pairwise (fun a b _ _ => le_antisymm) (sorted_sort _)
    ((sorted_sort spans).sublist List.filter_sublist)
  exact (List.mergeSort_perm _ _).trans ((List.mergeSort_perm spans le).symm.filter p)

end Span

namespace Spans

variable {contiguous : Bool} {a current first : Span} {spans members rest merged wider : List Span}
variable {p : Span → Bool}

/-! ## 1. Runs tell what merging gives -/

/-- Going through a run leads to what it is merged into. -/
theorem sweep_of_run (h : Run contiguous members current) :
    ∀ {first more}, members = first :: more → ∀ rest,
      sweep contiguous first (more ++ rest) = sweep contiguous current rest := by
  induction h with
  | one a =>
    intro first more hmembers rest
    cases hmembers
    rfl
  | @widened members current next hrun hjoins hoffset ih =>
    intro first more hmembers rest
    obtain ⟨first', before, rfl⟩ := List.exists_cons_of_ne_nil hrun.ne_nil
    obtain ⟨rfl, rfl⟩ := List.cons.inj hmembers
    obtain ⟨hcurrent, hnext⟩ := touches_of_joins hjoins
    rw [List.append_eq, List.append_assoc, ih rfl, List.singleton_append, sweep, if_pos hjoins,
      Span.merge_eq_ok hoffset hcurrent hnext]
    rfl

theorem sweep_of_inRuns (h : InRuns contiguous spans merged) :
    ∀ {first rest}, spans = first :: rest → sweep contiguous first rest = .ok merged := by
  induction h with
  | nil => simp
  | @run members behind merged current hrun hends hrest ih =>
    intro first rest hspans
    obtain ⟨first', more, rfl⟩ := List.exists_cons_of_ne_nil hrun.ne_nil
    obtain ⟨rfl, rfl⟩ := List.cons.inj hspans
    rw [List.append_eq, sweep_of_run hrun rfl]
    cases behind with
    | nil =>
      rw [hrest.eq_nil]
      rfl
    | cons next others =>
      rw [sweep, if_neg (Bool.eq_false_iff.mp (hends next rfl)), ih rfl]
      rfl

/-- **If the sorted spans are in runs, merging gives what the runs are merged into.** -/
theorem merge_of_inRuns (h : InRuns contiguous (Span.sort spans) merged) :
    merge contiguous spans = .ok merged := by
  rw [merge]
  cases hsort : Span.sort spans with
  | nil =>
    rw [hsort] at h
    rw [h.eq_nil]
  | cons first rest => exact sweep_of_inRuns h hsort

/-! ## 2. Merging some of the spans -/

/-- Of two spans with no room between them one may be widened by the other within what is clear
around it. -/
theorem hull_within {b e f : Span} (hae : e.start ≤ a.start ∧ a.stop ≤ e.stop)
    (hbf : f.start ≤ b.start ∧ b.stop ≤ f.stop) (hab : a.intersects b = true)
    (hclear : e = f ∨ e.Clear f ∨ f.Clear e) :
    (e.start ≤ (a.hull b).start ∧ (a.hull b).stop ≤ e.stop) ∨
      (f.start ≤ (a.hull b).start ∧ (a.hull b).stop ≤ f.stop) := by
  have ha := a.start_le_stop
  have hb := b.start_le_stop
  rw [Span.intersects_iff] at hab
  simp only [Span.hull]
  rcases hclear with rfl | hclear | hclear
  · omega
  · rw [Span.clear_iff] at hclear
    omega
  · rw [Span.clear_iff] at hclear
    omega

/-- **What some of the spans are merged into lies in what all of them are.** -/
theorem Run.exists_wider (h : Run false members current)
    (hmembers : ∀ a ∈ members, ∃ e ∈ wider, e.start ≤ a.start ∧ a.stop ≤ e.stop)
    (hclear : wider.Pairwise Span.Clear) :
    ∃ e ∈ wider, e.start ≤ current.start ∧ current.stop ≤ e.stop := by
  induction h with
  | one a => exact hmembers a (List.mem_singleton_self a)
  | @widened members current next hrun hjoins hoffset ih =>
    obtain ⟨e, he, hcurrent⟩ := ih fun a ha => hmembers a (List.mem_append_left _ ha)
    obtain ⟨f, hf, hnext⟩ :=
      hmembers next (List.mem_append_right _ (List.mem_singleton_self next))
    have hintersects : current.intersects next = true := by
      simp only [joins, Bool.false_and, Bool.or_false, Bool.and_eq_true] at hjoins
      exact hjoins.1
    have hef : e = f ∨ e.Clear f ∨ f.Clear e := by
      by_cases hsame : e = f
      · exact .inl hsame
      · exact .inr (Span.clear_or_clear hclear he hf hsame)
    rcases hull_within hcurrent hnext hintersects hef with hwithin | hwithin
    · exact ⟨e, he, hwithin⟩
    · exact ⟨f, hf, hwithin⟩

/-! ## 3. Merging the spans of one kind -/

/-- Spans of two kinds are never merged: those of a run are of the kind of what they are merged
into. -/
def KindsApart (p : Span → Bool) (spans : List Span) : Prop :=
  ∀ members current, Run false members current → members ⊆ spans → ∀ a ∈ members, p a = p current

theorem KindsApart.mono (h : KindsApart p spans) (hsub : rest ⊆ spans) : KindsApart p rest :=
  fun members current hrun hmembers => h members current hrun fun _ ha => hsub (hmembers ha)

/-- **The runs of one kind are the runs of the spans of that kind.**  What ended a run may be left
out; but what then stands behind the run is clear of it too. -/
theorem InRuns.filter (h : InRuns false spans merged) (hsorted : Span.Sorted spans)
    (hoffset : ∀ a ∈ spans, ∀ b ∈ spans, a.offset = b.offset) (hkinds : KindsApart p spans) :
    InRuns false (spans.filter p) (merged.filter p) := by
  induction h with
  | nil => exact .nil
  | @run members rest merged current hrun hends hrest ih =>
    have hsortedRest := (Span.sorted_append.mp hsorted).2.1
    have hfiltered := ih hsortedRest
      (fun a ha b hb => hoffset a (List.mem_append_right _ ha) b (List.mem_append_right _ hb))
      (hkinds.mono (List.subset_append_right members rest))
    have hkind := hkinds members current hrun (List.subset_append_left members rest)
    rw [List.filter_append]
    cases hcurrent : p current with
    | false =>
      have hnone : members.filter p = [] :=
        List.filter_eq_nil_iff.mpr fun a ha => by simp [hkind a ha, hcurrent]
      rw [hnone, List.nil_append, List.filter_cons_of_neg (by simp [hcurrent])]
      exact hfiltered
    | true =>
      have hall : members.filter p = members :=
        List.filter_eq_self.mpr fun a ha => by rw [hkind a ha, hcurrent]
      rw [hall, List.filter_cons_of_pos hcurrent]
      refine .run hrun (fun next hnext => ?_) hfiltered
      have hmem : next ∈ rest := (List.mem_filter.mp (List.mem_of_head? hnext)).1
      obtain ⟨first, others, rfl⟩ := List.exists_cons_of_ne_nil (List.ne_nil_of_mem hmem)
      obtain ⟨a, ha⟩ := List.exists_mem_of_ne_nil members hrun.ne_nil
      have hsame : current.offset = first.offset := by
        rw [← hrun.offset_eq a ha]
        exact hoffset a (List.mem_append_left _ ha) first
          (List.mem_append_right _ List.mem_cons_self)
      have hfirst := hends first rfl
      simp only [joins, hsame, beq_self_eq_true, Bool.and_true, Bool.false_and, Bool.or_false]
        at hfirst
      have hclear : current.Clear next :=
        (Span.clear_of_le (InRuns.le_of_mem_rest hrun hsorted first List.mem_cons_self) hfirst).of_le
          (hsortedRest.head_le next hmem)
      rw [joins, hclear.2]
      rfl

/-- **Where kinds are not merged, merging the spans of one kind gives the merged spans of that
kind.** -/
theorem merge_filter (h : merge false spans = .ok merged)
    (hoffset : ∀ a ∈ spans, ∀ b ∈ spans, a.offset = b.offset) (hkinds : KindsApart p spans) :
    merge false (spans.filter p) = .ok (merged.filter p) := by
  apply merge_of_inRuns
  rw [Span.sort_filter]
  refine (inRuns_of_merge h).filter (Span.sorted_sort spans) (fun a ha b hb => ?_) ?_
  · exact hoffset a (Span.mem_sort.mp ha) b (Span.mem_sort.mp hb)
  · exact hkinds.mono fun a ha => Span.mem_sort.mp ha

end Spans

end TaggedText
