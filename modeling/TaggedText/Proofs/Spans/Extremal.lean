/-
# The shortest and the longest spans are the extremal ones

Both selections keep one span of every start and compare it with the ones listed behind it only.
Two things have to be shown of that.  A span that is dropped because another one has its start is
never needed as a witness: the one kept is related to it.  And a span is never related to one listed
in front of it.  Which order and which relation go together is said once (`Suits`), and all that
follows is for any such pair; `suits_shortest` and `suits_longest` are the two selections.

`shortest_and_longest_are_extremal`: **the selections are, in order and one for each pair of bounds,
the spans that contain no other span of the list properly, and those that no other span of it
contains properly; each span of the list contains one of the first, and lies in one of the second.**
-/
import TaggedText.Spans.Extremal
import TaggedText.Proofs.Spans.Covering

namespace TaggedText.Spans

variable {order related : Span → Span → Bool} {spans : List Span} {a b : Span} {last : Option Nat}

/-! ## 1. Orders and relations -/

/-- An order in which spans are listed, and a relation by which one of them is left out for another.
Of the spans with one start, which stand together in the order, the others are related to the
first, and no span is related to one with another start in front of it. -/
structure Suits (order related : Span → Span → Bool) : Prop where
  refl (a : Span) : order a a = true
  total (a b : Span) : order a b = true ∨ order b a = true
  antisymm {a b : Span} : order a b = true → order b a = true → a = b
  together {a b c : Span} : order a b = true → order b c = true → a.start = c.start →
    b.start = a.start
  related_first {a b : Span} : order a b = true → a.start = b.start → related b a = true
  not_related {a b : Span} : order a b = true → a.start ≠ b.start → related b a = false
  related_trans {a b c : Span} : related a b = true → related b c = true → related a c = true
  equals {a b : Span} : related a b = true → related b a = true → b.equals a = true

/-- In increasing order, spans are left out for those that lie in them. -/
theorem suits_shortest : Suits Span.le fun a b => b.within a where
  refl := Span.le_refl
  total a b := by simpa using Span.le_total a b
  antisymm := Span.le_antisymm
  together hab hbc hac := by rw [Span.le_iff] at hab hbc; omega
  related_first hab hstart := by rw [Span.le_iff] at hab; rw [Span.within_iff]; omega
  not_related hab hstart := by
    rw [Span.le_iff] at hab
    rw [← Bool.not_eq_true, Span.within_iff]
    omega
  related_trans hab hbc := by rw [Span.within_iff] at hab hbc ⊢; omega
  equals hab hba := by rw [Span.within_iff] at hab hba; rw [Span.equals_iff]; omega

/-- In decreasing order, spans are left out for those that they lie in. -/
theorem suits_longest : Suits (fun a b => Span.le b a) Span.within where
  refl := Span.le_refl
  total a b := by simpa using Span.le_total b a
  antisymm hab hba := Span.le_antisymm hba hab
  together hab hbc hac := by rw [Span.le_iff] at hab hbc; omega
  related_first hab hstart := by rw [Span.le_iff] at hab; rw [Span.within_iff]; omega
  not_related hab hstart := by
    rw [Span.le_iff] at hab
    rw [← Bool.not_eq_true, Span.within_iff]
    omega
  related_trans hab hbc := by rw [Span.within_iff] at hab hbc ⊢; omega
  equals hab hba := by rw [Span.within_iff] at hab hba; rw [Span.equals_iff]; omega

/-! ## 2. One span of every start -/

theorem distinctStartsAfter_sublist (last : Option Nat) (spans : List Span) :
    (distinctStartsAfter last spans).Sublist spans := by
  induction spans generalizing last with
  | nil => exact .slnil
  | cons a rest ih =>
    unfold distinctStartsAfter
    split
    · exact (ih last).cons a
    · exact (ih _).cons_cons a

/-- Every span that is not kept stands behind one that is kept for its start. -/
theorem exists_mem_distinctStartsAfter (h : Suits order related) (last : Option Nat)
    (hspans : spans.Pairwise fun a b => order a b = true) (hb : b ∈ spans) :
    last = some b.start ∨
      ∃ a ∈ distinctStartsAfter last spans, a.start = b.start ∧ order a b = true := by
  induction spans generalizing last with
  | nil => cases hb
  | cons first rest ih =>
    obtain ⟨hfirst, hrest⟩ := List.pairwise_cons.mp hspans
    unfold distinctStartsAfter
    split
    · next hlast =>
      rcases List.mem_cons.mp hb with rfl | hb
      · exact .inl hlast
      · exact ih last hrest hb
    · right
      rcases List.mem_cons.mp hb with rfl | hb
      · exact ⟨b, List.mem_cons_self, rfl, h.refl b⟩
      · rcases ih (some first.start) hrest hb with hstart | ⟨a, ha, hab⟩
        · exact ⟨first, List.mem_cons_self, Option.some.inj hstart, hfirst b hb⟩
        · exact ⟨a, List.mem_cons_of_mem first ha, hab⟩

/-- A start for which a span was kept does not come up again. -/
theorem start_ne_of_mem_distinctStartsAfter (h : Suits order related)
    (hspans : (b :: spans).Pairwise fun a b => order a b = true)
    (ha : a ∈ distinctStartsAfter (some b.start) spans) : b.start ≠ a.start := by
  induction spans generalizing b with
  | nil => cases ha
  | cons first rest ih =>
    obtain ⟨hb, hspans⟩ := List.pairwise_cons.mp hspans
    obtain ⟨hbfirst, hbrest⟩ := List.forall_mem_cons.mp hb
    obtain ⟨hfirst, hrest⟩ := List.pairwise_cons.mp hspans
    unfold distinctStartsAfter at ha
    split at ha
    · exact ih (List.pairwise_cons.mpr ⟨hbrest, hrest⟩) ha
    · next hne =>
      intro hstart
      rcases List.mem_cons.mp ha with rfl | ha
      · exact hne (congrArg some hstart)
      · have hmem := (distinctStartsAfter_sublist _ _).subset ha
        exact hne (congrArg some (h.together hbfirst (hfirst a hmem) hstart).symm)

theorem pairwise_distinctStartsAfter (h : Suits order related)
    (hspans : spans.Pairwise fun a b => order a b = true) :
    (distinctStartsAfter last spans).Pairwise fun a b =>
      order a b = true ∧ a.start ≠ b.start := by
  induction spans generalizing last with
  | nil => exact List.Pairwise.nil
  | cons first rest ih =>
    obtain ⟨hfirst, hrest⟩ := List.pairwise_cons.mp hspans
    unfold distinctStartsAfter
    split
    · exact ih hrest
    · refine List.pairwise_cons.mpr ⟨fun b hb => ⟨?_, ?_⟩, ih hrest⟩
      · exact hfirst b ((distinctStartsAfter_sublist _ _).subset hb)
      · exact start_ne_of_mem_distinctStartsAfter h hspans hb

theorem exists_mem_distinctStarts (h : Suits order related)
    (hspans : spans.Pairwise fun a b => order a b = true) (hb : b ∈ spans) :
    ∃ a ∈ distinctStarts spans, a.start = b.start ∧ order a b = true :=
  (exists_mem_distinctStartsAfter h none hspans hb).resolve_left fun hnone => by cases hnone

/-- **The first span of every start is kept.** -/
theorem mem_distinctStarts (h : Suits order related)
    (hspans : spans.Pairwise fun a b => order a b = true) : a ∈ distinctStarts spans ↔
      a ∈ spans ∧ ∀ b ∈ spans, b.start = a.start → order a b = true := by
  constructor
  · intro ha
    refine ⟨(distinctStartsAfter_sublist none spans).subset ha, fun b hb hstart => ?_⟩
    obtain ⟨c, hc, hcstart, hcb⟩ := exists_mem_distinctStarts h hspans hb
    have hsame : c = a := Span.eq_of_pairwise_not (R := fun a b => a.start = b.start)
      (fun _ _ => Eq.symm) ((pairwise_distinctStartsAfter h hspans).imp And.right) hc ha
      (hcstart.trans hstart)
    exact hsame ▸ hcb
  · rintro ⟨ha, hfirst⟩
    obtain ⟨c, hc, hstart, hca⟩ := exists_mem_distinctStarts h hspans ha
    have hac := hfirst c ((distinctStartsAfter_sublist none spans).subset hc) hstart
    exact h.antisymm hac hca ▸ hc

/-! ## 3. Spans to which no later one is related -/

theorem withoutLater_sublist (related : Span → Span → Bool) (spans : List Span) :
    (withoutLater related spans).Sublist spans := by
  induction spans with
  | nil => exact .slnil
  | cons a rest ih =>
    unfold withoutLater
    split
    · exact ih.cons a
    · exact ih.cons_cons a

/-- Where no span is related to one in front of it, those are left to which no other one is. -/
theorem mem_withoutLater (hspans : spans.Pairwise fun a b => related b a = false) :
    a ∈ withoutLater related spans ↔
      a ∈ spans ∧ ∀ b ∈ spans, related a b = true → b = a := by
  induction spans with
  | nil => simp [withoutLater]
  | cons first rest ih =>
    obtain ⟨hfirst, hrest⟩ := List.pairwise_cons.mp hspans
    -- looking at the first span too makes no difference to those behind it
    have hbehind : a ∈ withoutLater related rest →
        a ∈ first :: rest ∧ ∀ b ∈ first :: rest, related a b = true → b = a := by
      intro ha
      obtain ⟨ha, hleft⟩ := (ih hrest).mp ha
      refine ⟨List.mem_cons_of_mem first ha, List.forall_mem_cons.mpr ⟨fun hrelated => ?_, hleft⟩⟩
      exact absurd hrelated (Bool.eq_false_iff.mp (hfirst a ha))
    have hahead : a ∈ rest → (∀ b ∈ first :: rest, related a b = true → b = a) →
        a ∈ withoutLater related rest := fun ha hleft =>
      (ih hrest).mpr ⟨ha, fun b hb => hleft b (List.mem_cons_of_mem first hb)⟩
    unfold withoutLater
    split
    · next hany =>
      refine ⟨hbehind, fun ⟨ha, hleft⟩ => ?_⟩
      rcases List.mem_cons.mp ha with rfl | ha
      · obtain ⟨b, hb, hrelated⟩ := List.any_eq_true.mp hany
        have hno := hfirst b hb
        rw [hleft b (List.mem_cons_of_mem a hb) hrelated] at hno hrelated
        exact absurd hrelated (Bool.eq_false_iff.mp hno)
      · exact hahead ha hleft
    · next hnone =>
      constructor
      · intro ha
        rcases List.mem_cons.mp ha with rfl | ha
        · refine ⟨List.mem_cons_self, List.forall_mem_cons.mpr ⟨fun _ => rfl, fun b hb hrelated => ?_⟩⟩
          exact absurd (List.any_eq_true.mpr ⟨b, hb, hrelated⟩) hnone
        · exact hbehind ha
      · rintro ⟨ha, hleft⟩
        rcases List.mem_cons.mp ha with rfl | ha
        · exact List.mem_cons_self
        · exact List.mem_cons_of_mem first (hahead ha hleft)

/-- **Every span is related to one that is left.** -/
theorem exists_mem_withoutLater (h : Suits order related) (ha : a ∈ spans) :
    ∃ b ∈ withoutLater related spans, related a b = true := by
  induction spans generalizing a with
  | nil => cases ha
  | cons first rest ih =>
    have hrest : ∀ c ∈ rest, ∃ b ∈ withoutLater related (first :: rest), related c b = true := by
      intro c hc
      obtain ⟨b, hb, hcb⟩ := ih hc
      unfold withoutLater
      split
      · exact ⟨b, hb, hcb⟩
      · exact ⟨b, List.mem_cons_of_mem first hb, hcb⟩
    rcases List.mem_cons.mp ha with rfl | ha
    · by_cases hany : rest.any (related a) = true
      · obtain ⟨c, hc, hac⟩ := List.any_eq_true.mp hany
        obtain ⟨b, hb, hcb⟩ := hrest c hc
        exact ⟨b, hb, h.related_trans hac hcb⟩
      · refine ⟨a, ?_, h.related_first (h.refl a) rfl⟩
        rw [withoutLater, if_neg hany]
        exact List.mem_cons_self
    · exact hrest a ha

/-! ## 4. What is selected -/

/-- One span of every start, without those that are related to a later one. -/
def extremal (related : Span → Span → Bool) (spans : List Span) : List Span :=
  withoutLater related (distinctStarts spans)

theorem extremal_sublist (related : Span → Span → Bool) (spans : List Span) :
    (extremal related spans).Sublist spans :=
  (withoutLater_sublist related _).trans (distinctStartsAfter_sublist none spans)

section Suiting

variable (h : Suits order related) (hspans : spans.Pairwise fun a b => order a b = true)
include h hspans

theorem pairwise_extremal :
    (extremal related spans).Pairwise fun a b => a.equals b = false := by
  refine ((pairwise_distinctStartsAfter h hspans).sublist (withoutLater_sublist related _)).imp ?_
  rintro a b ⟨-, hstart⟩
  rw [← Bool.not_eq_true, Span.equals_iff]
  exact fun heq => hstart heq.1

/-- **A span is kept if it is related to none but those with its bounds, of which it is the
first.**  A span that is dropped for its start is no loss: what is related to it is related to the
one that is kept for that start. -/
theorem mem_extremal : a ∈ extremal related spans ↔ a ∈ spans ∧
    (∀ b ∈ spans, related a b = true → b.equals a = true) ∧
    ∀ b ∈ spans, b.equals a = true → order a b = true := by
  have hdistinct : (distinctStarts spans).Pairwise fun a b => related b a = false :=
    (pairwise_distinctStartsAfter h hspans).imp fun hab => h.not_related hab.1 hab.2
  rw [extremal, mem_withoutLater hdistinct]
  simp only [mem_distinctStarts h hspans]
  constructor
  · rintro ⟨⟨ha, hfirst⟩, hleft⟩
    refine ⟨ha, fun b hb hab => ?_, fun b hb heq => hfirst b hb (Span.equals_iff.mp heq).1⟩
    obtain ⟨c, hc, hstart, hcb⟩ := exists_mem_distinctStarts h hspans hb
    have hbc := h.related_first hcb hstart
    obtain rfl := hleft c ((mem_distinctStarts h hspans).mp hc) (h.related_trans hab hbc)
    exact h.equals hab hbc
  · rintro ⟨ha, hnone, hfirst⟩
    have hbest : ∀ b ∈ spans, b.start = a.start → order a b = true := by
      intro b hb hstart
      rcases h.total a b with hab | hba
      · exact hab
      · exact hfirst b hb (hnone b hb (h.related_first hba hstart))
    refine ⟨⟨ha, hbest⟩, fun b hb hab => ?_⟩
    have hstart := (Span.equals_iff.mp (hnone b hb.1 hab)).1
    exact h.antisymm (hb.2 a ha hstart.symm) (hbest b hb.1 hstart)

theorem exists_mem_extremal (ha : a ∈ spans) : ∃ b ∈ extremal related spans, related a b = true := by
  obtain ⟨c, hc, hstart, hca⟩ := exists_mem_distinctStarts h hspans ha
  obtain ⟨b, hb, hcb⟩ := exists_mem_withoutLater h hc
  exact ⟨b, hb, h.related_trans (h.related_first hca hstart) hcb⟩

end Suiting

/-! ## 5. Shortest and longest spans -/

/-- No span of the list lies properly in this one, which has the least offset of those with its
bounds. -/
structure IsShortest (spans : List Span) (a : Span) : Prop where
  mem : a ∈ spans
  minimal : ∀ b ∈ spans, b.within a = true → b.equals a = true
  least : ∀ b ∈ spans, b.equals a = true → a.offset ≤ b.offset

/-- This span lies properly in no span of the list, and has the greatest offset of those with its
bounds. -/
structure IsLongest (spans : List Span) (a : Span) : Prop where
  mem : a ∈ spans
  maximal : ∀ b ∈ spans, a.within b = true → b.equals a = true
  greatest : ∀ b ∈ spans, b.equals a = true → b.offset ≤ a.offset

theorem shortest_eq (spans : List Span) :
    shortest spans = extremal (fun a b => b.within a) (Span.sort spans) := rfl

/-- The spans in decreasing order. -/
def descending (spans : List Span) : List Span := spans.mergeSort fun a b => Span.le b a

theorem longest_eq (spans : List Span) :
    longest spans = Span.sort (extremal Span.within (descending spans)) := rfl

theorem pairwise_descending (spans : List Span) :
    (descending spans).Pairwise fun a b => Span.le b a = true := by
  apply List.pairwise_mergeSort
  · exact fun _ _ _ hab hbc => Span.le_trans hbc hab
  · exact fun a b => Span.le_total b a

theorem mem_descending : a ∈ descending spans ↔ a ∈ spans := List.mem_mergeSort

theorem mem_shortest : a ∈ shortest spans ↔ IsShortest spans a := by
  rw [shortest_eq, mem_extremal suits_shortest (Span.sorted_sort spans)]
  simp only [Span.mem_sort]
  have hle (b : Span) (heq : b.equals a = true) : Span.le a b = true ↔ a.offset ≤ b.offset :=
    Span.le_iff_of_equals (Span.equals_symm heq)
  constructor
  · rintro ⟨ha, hnone, hfirst⟩
    exact ⟨ha, hnone, fun b hb heq => (hle b heq).mp (hfirst b hb heq)⟩
  · intro h
    exact ⟨h.mem, h.minimal, fun b hb heq => (hle b heq).mpr (h.least b hb heq)⟩

theorem mem_longest : a ∈ longest spans ↔ IsLongest spans a := by
  rw [longest_eq, Span.mem_sort, mem_extremal suits_longest (pairwise_descending spans)]
  simp only [mem_descending]
  constructor
  · rintro ⟨ha, hnone, hfirst⟩
    exact ⟨ha, hnone, fun b hb heq => (Span.le_iff_of_equals heq).mp (hfirst b hb heq)⟩
  · intro h
    exact ⟨h.mem, h.maximal, fun b hb heq => (Span.le_iff_of_equals heq).mpr (h.greatest b hb heq)⟩

/-- **The shortest and the longest spans are the extremal ones.**  Either selection is sorted and has
one span for each pair of bounds; it has exactly the spans that contain no other span of the list
properly, or that no other one contains properly, and of each span of the list one that lies in it,
or in which it lies. -/
theorem shortest_and_longest_are_extremal (spans : List Span) :
    (Span.Sorted (shortest spans) ∧
      (shortest spans).Pairwise (fun a b => a.equals b = false) ∧
      (∀ a, a ∈ shortest spans ↔ IsShortest spans a) ∧
      ∀ a ∈ spans, ∃ b ∈ shortest spans, b.within a = true) ∧
    (Span.Sorted (longest spans) ∧
      (longest spans).Pairwise (fun a b => a.equals b = false) ∧
      (∀ a, a ∈ longest spans ↔ IsLongest spans a) ∧
      ∀ a ∈ spans, ∃ b ∈ longest spans, a.within b = true) := by
  have hsorted := Span.sorted_sort spans
  have hdescending := pairwise_descending spans
  refine ⟨⟨?_, ?_, fun a => mem_shortest, fun a ha => ?_⟩,
    Span.sorted_sort _, ?_, fun a => mem_longest, fun a ha => ?_⟩
  · exact hsorted.sublist (extremal_sublist _ _)
  · exact pairwise_extremal suits_shortest hsorted
  · exact exists_mem_extremal suits_shortest hsorted (Span.mem_sort.mpr ha)
  · -- equal bounds do not depend on the order in which the two stand
    refine ((List.mergeSort_perm _ _).pairwise_iff fun hab => ?_).mpr
      (pairwise_extremal suits_longest hdescending)
    exact Bool.eq_false_iff.mpr fun hba => Bool.eq_false_iff.mp hab (Span.equals_symm hba)
  · obtain ⟨b, hb, hab⟩ := exists_mem_extremal suits_longest hdescending (mem_descending.mpr ha)
    exact ⟨b, Span.mem_sort.mpr hb, hab⟩

/-- Common starts, common stops, an empty span on a border, and spans with the same bounds. -/
example :
    let spans : List Span := [⟨2, 6, 1, by decide⟩, ⟨0, 4, 0, by decide⟩, ⟨2, 4, 3, by decide⟩,
      ⟨2, 6, 0, by decide⟩, ⟨4, 4, 2, by decide⟩, ⟨4, 4, 1, by decide⟩, ⟨5, 6, 0, by decide⟩]
    shortest spans = [⟨4, 4, 1, by decide⟩, ⟨5, 6, 0, by decide⟩] ∧
      longest spans = [⟨0, 4, 0, by decide⟩, ⟨2, 6, 1, by decide⟩] :=
  ⟨by cbv, by cbv⟩

end TaggedText.Spans
