/-
# What clusters share with categories

A cluster and a category are gone through side by side, in the order of positions in the text.
Where both have a position, one span of either is used up, and the one of the cluster is kept.  So
of the spans that a cluster has at a position, **the first are kept, as many as the category has
there** (`common_keepsAsMany`).

These are all spans of the cluster at positions of the category exactly when the category has each
of these positions at least as often as the cluster (`sharing_keeps_members_if_as_many`).  Where the
cluster has one more often, spans that belong to the category are lost, even ones that differ from
those that are kept: `sharing_loses_members_at_one_position`.
-/
import TaggedText.Proofs.Checked.Lists
import Mathlib.Data.List.Forall2
import Mathlib.Data.List.Permutation

namespace TaggedText.Spans

/-! ## 1. The order of positions -/

theorem compareBounds_eq_eq {p q : Nat × Nat} : compareBounds p q = .eq ↔ p = q := by
  rw [compareBounds, Ordering.then_eq_eq, Nat.compare_eq_eq, Nat.compare_eq_eq, Prod.ext_iff]

theorem compareBounds_eq_lt {p q : Nat × Nat} :
    compareBounds p q = .lt ↔ p.1 < q.1 ∨ p.1 = q.1 ∧ p.2 < q.2 := by
  rw [compareBounds, Ordering.then_eq_lt, Nat.compare_eq_lt, Nat.compare_eq_lt, Nat.compare_eq_eq]

theorem compareBounds_eq_gt {p q : Nat × Nat} :
    compareBounds p q = .gt ↔ compareBounds q p = .lt := by
  rw [compareBounds_eq_lt, compareBounds, Ordering.then_eq_gt, Nat.compare_eq_gt,
    Nat.compare_eq_gt, Nat.compare_eq_eq, eq_comm]

theorem compareBounds_isLE {p q : Nat × Nat} :
    (compareBounds p q).isLE = true ↔ p.1 < q.1 ∨ p.1 = q.1 ∧ p.2 ≤ q.2 := by
  rw [compareBounds, Ordering.isLE_then_iff_or, Nat.compare_eq_lt, Nat.compare_eq_eq,
    Nat.isLE_compare]

/-- The spans stand in the order of their positions in the text. -/
def InTextOrder (spans : List Span) : Prop :=
  spans.Pairwise fun a b => (compareBounds a.bounds b.bounds).isLE = true

instance (spans : List Span) : Decidable (InTextOrder spans) :=
  inferInstanceAs (Decidable (List.Pairwise _ _))

/-- The spans at a position in the text. -/
def spansAt (position : Nat × Nat) (spans : List Span) : List Span :=
  spans.filter fun a => a.bounds = position

theorem spansAt_cons (position : Nat × Nat) (a : Span) (spans : List Span) :
    spansAt position (a :: spans) =
      if a.bounds = position then a :: spansAt position spans else spansAt position spans := by
  by_cases h : a.bounds = position <;> simp [spansAt, h]

/-- **A position before the first span is the position of none.** -/
theorem InTextOrder.spansAt_eq_nil {a : Span} {spans : List Span} (h : InTextOrder (a :: spans))
    {position : Nat × Nat} (hlt : compareBounds position a.bounds = .lt) :
    spansAt position (a :: spans) = [] := by
  rw [compareBounds_eq_lt] at hlt
  rw [spansAt, List.filter_eq_nil_iff]
  intro b hb hposition
  have hposition : b.bounds = position := of_decide_eq_true hposition
  rcases List.mem_cons.mp hb with rfl | hb
  · rw [hposition] at hlt
    omega
  · have hle := compareBounds_isLE.mp ((List.pairwise_cons.mp h).1 b hb)
    rw [hposition] at hle
    omega

/-! ## 2. One cluster and one category -/

/-- **Of the spans of a cluster at each position the first, as many as a category has there**, in
the order of the cluster. -/
structure KeepsAsMany (cluster category members : List Span) : Prop where
  inOrder : members.Sublist cluster
  first : ∀ position, spansAt position members =
    (spansAt position cluster).take (spansAt position category).length

/-- **What is met side by side are the first spans at each position, as many as both have.** -/
theorem common_keepsAsMany {cluster category : List Span} (hcluster : InTextOrder cluster)
    (hcategory : InTextOrder category) :
    KeepsAsMany cluster category (common cluster category) := by
  fun_induction common cluster category with
  | case1 a cluster b category heq ih =>
    obtain ⟨hsub, hfirst⟩ :=
      ih (List.pairwise_cons.mp hcluster).2 (List.pairwise_cons.mp hcategory).2
    refine ⟨hsub.cons_cons a, fun position => ?_⟩
    have hposition : a.bounds = b.bounds := compareBounds_eq_eq.mp heq
    rw [spansAt_cons, spansAt_cons, spansAt_cons, hposition, hfirst position]
    -- one more on each side at their own position, and none at any other
    by_cases h : b.bounds = position
    · rw [if_pos h, if_pos h, if_pos h, List.length_cons, List.take_succ_cons]
    · rw [if_neg h, if_neg h, if_neg h]
  | case2 a cluster b category hlt ih =>
    obtain ⟨hsub, hfirst⟩ := ih (List.pairwise_cons.mp hcluster).2 hcategory
    refine ⟨hsub.cons a, fun position => ?_⟩
    rw [hfirst position]
    by_cases h : a.bounds = position
    · -- the category has nothing at the position that is passed
      rw [← h, hcategory.spansAt_eq_nil hlt]
      rfl
    · rw [spansAt_cons position a cluster, if_neg h]
  | case3 a cluster b category hgt ih =>
    obtain ⟨hsub, hfirst⟩ := ih hcluster (List.pairwise_cons.mp hcategory).2
    refine ⟨hsub, fun position => ?_⟩
    rw [hfirst position]
    by_cases h : b.bounds = position
    · -- the cluster has nothing at the position that is passed
      rw [← h, hcluster.spansAt_eq_nil (compareBounds_eq_gt.mp hgt), List.take_nil, List.take_nil]
    · rw [spansAt_cons position b category, if_neg h]
  | case4 cluster category hend =>
    refine ⟨List.nil_sublist cluster, fun position => ?_⟩
    cases cluster with
    | nil => simp [spansAt]
    | cons a cluster =>
      cases category with
      | nil => simp [spansAt]
      | cons b category => exact absurd rfl (hend a cluster b category rfl)

/-- The spans of a cluster whose position in the text is one of a category. -/
def membersOf (category cluster : List Span) : List Span :=
  cluster.filter fun a => a.bounds ∈ category.map Span.bounds

/-- The category has each position that it shares with the cluster as often as the cluster, or
more often. -/
def AsMany (cluster category : List Span) : Prop :=
  ∀ a ∈ cluster, a.bounds ∈ category.map Span.bounds →
    (spansAt a.bounds cluster).length ≤ (spansAt a.bounds category).length

instance (cluster category : List Span) : Decidable (AsMany cluster category) :=
  inferInstanceAs (Decidable (∀ a ∈ cluster, _ → _))

theorem spansAt_eq_nil {position : Nat × Nat} {spans : List Span} :
    spansAt position spans = [] ↔ position ∉ spans.map Span.bounds := by
  rw [spansAt, List.filter_eq_nil_iff, List.mem_map]
  simp

theorem spansAt_membersOf (position : Nat × Nat) (category cluster : List Span) :
    spansAt position (membersOf category cluster) =
      if position ∈ category.map Span.bounds then spansAt position cluster else [] := by
  rw [spansAt, membersOf, List.filter_filter]
  split
  · next h =>
    refine List.filter_congr fun a _ => ?_
    by_cases ha : a.bounds = position <;> simp_all
  · next h =>
    refine List.filter_eq_nil_iff.mpr fun a _ => ?_
    intro hboth
    simp only [Bool.and_eq_true, decide_eq_true_eq] at hboth
    exact h (hboth.1 ▸ hboth.2)

/-- Lists with the same spans at each position have the same spans. -/
theorem perm_of_spansAt_eq {left right : List Span}
    (h : ∀ position, spansAt position left = spansAt position right) : left.Perm right := by
  refine List.perm_iff_count.mpr fun a => ?_
  have hcount : ∀ spans : List Span, (spansAt a.bounds spans).count a = spans.count a :=
    fun spans => List.count_filter (by simp)
  rw [← hcount left, ← hcount right, h]

/-- **All members are kept exactly if the category has their positions often enough.** -/
theorem KeepsAsMany.eq_membersOf_iff {cluster category members : List Span}
    (h : KeepsAsMany cluster category members) :
    members = membersOf category cluster ↔ AsMany cluster category := by
  constructor
  · intro hall a _ hmem
    have hfirst := h.first a.bounds
    rw [hall, spansAt_membersOf, if_pos hmem] at hfirst
    have hlength := congrArg List.length hfirst
    rw [List.length_take] at hlength
    omega
  · intro hmany
    have hsame : ∀ position,
        spansAt position members = spansAt position (membersOf category cluster) := by
      intro position
      rw [h.first, spansAt_membersOf]
      split
      · next hposition =>
        refine List.take_of_length_le ?_
        by_cases hnone : spansAt position cluster = []
        · simp [hnone]
        · rw [spansAt_eq_nil, not_not] at hnone
          obtain ⟨a, ha, rfl⟩ := List.mem_map.mp hnone
          exact hmany a ha hposition
      · next hposition => rw [spansAt_eq_nil.mpr hposition, List.length_nil, List.take_zero]
    have hin : ∀ a ∈ members, decide (a.bounds ∈ category.map Span.bounds) = true := by
      intro a ha
      have hat : a ∈ spansAt a.bounds (membersOf category cluster) := by
        rw [← hsame]
        exact List.mem_filter.mpr ⟨ha, by simp⟩
      exact (List.mem_filter.mp (List.mem_filter.mp hat).1).2
    have hsub : members.Sublist (membersOf category cluster) := by
      have := h.inOrder.filter fun a => decide (a.bounds ∈ category.map Span.bounds)
      rwa [List.filter_eq_self.mpr hin] at this
    exact hsub.eq_of_length (perm_of_spansAt_eq hsame).length_eq

/-! ## 3. All clusters and all categories -/

/-- **What clusters share with categories.**  For each category and each cluster the first spans of
the cluster at each position are kept, as many as the category has there.  These are all spans of
the clusters at positions of the categories exactly when no category has a position less often than
a cluster that shares it.  If all spans fit into words, no check fails where positions are compared. -/
theorem sharing_keeps_members_if_as_many {clusters categories : List (List Span)}
    (hclusters : ∀ cluster ∈ clusters, InTextOrder cluster)
    (hcategories : ∀ category ∈ categories, InTextOrder category) :
    List.Forall₂ (fun category shared =>
        List.Forall₂ (fun cluster members => KeepsAsMany cluster category members) clusters shared)
      categories (categorize clusters categories) ∧
    (categorize clusters categories =
        (categories.map fun category => clusters.map (membersOf category)) ↔
      ∀ category ∈ categories, ∀ cluster ∈ clusters, AsMany cluster category) ∧
    ((∀ cluster ∈ clusters, ∀ a ∈ cluster, a.Fits) →
      (∀ category ∈ categories, ∀ b ∈ category, b.Fits) →
      Checked.categorize clusters categories = .ok (categorize clusters categories)) := by
  have hkeeps : ∀ category ∈ categories, ∀ cluster ∈ clusters,
      KeepsAsMany cluster category (common cluster category) :=
    fun category hcategory cluster hcluster =>
      common_keepsAsMany (hclusters cluster hcluster) (hcategories category hcategory)
  refine ⟨?_, ?_, Checked.categorize_eq⟩
  · refine List.forall₂_map_right_iff.mpr (List.forall₂_same.mpr fun category hcategory => ?_)
    exact List.forall₂_map_right_iff.mpr (List.forall₂_same.mpr (hkeeps category hcategory))
  · rw [categorize, List.map_inj_left]
    refine forall₂_congr fun category hcategory => ?_
    rw [List.map_inj_left]
    exact forall₂_congr fun cluster hcluster =>
      (hkeeps category hcategory cluster hcluster).eq_membersOf_iff

/-- Positions that stand repeatedly on both sides, told by different offsets: the first category has
one of them more often than the cluster, and the second one has the other less often. -/
theorem sharing_keeps_members_if_as_many_repeated :
    let a : Span := ⟨2, 4, 0, by decide⟩
    let b : Span := ⟨0, 2, 2, by decide⟩
    let c : Span := ⟨1, 3, 4, by decide⟩
    let d : Span := ⟨5, 7, 0, by decide⟩
    let clusters : List (List Span) := [[b, a, c, d], []]
    let categories : List (List Span) := [[a, a, b, d, c], [b, d]]
    (∀ cluster ∈ clusters, InTextOrder cluster) ∧
    (∀ category ∈ categories, InTextOrder category) ∧
    categorize clusters categories = [[[b, a, c, d], []], [[b, c], []]] ∧
    categorize clusters categories ≠
      (categories.map fun category => clusters.map (membersOf category)) ∧
    categorize clusters (categories.take 1) =
      ((categories.take 1).map fun category => clusters.map (membersOf category)) := by
  intro a b c d clusters categories
  have hclusters : ∀ cluster ∈ clusters, InTextOrder cluster := by decide
  have hcategories : ∀ category ∈ categories, InTextOrder category := by decide
  have hone : ∀ category ∈ categories.take 1, InTextOrder category :=
    fun category hcategory => hcategories category (List.mem_of_mem_take hcategory)
  refine ⟨hclusters, hcategories, by cbv, fun hall => ?_, ?_⟩
  · have hmany := (sharing_keeps_members_if_as_many hclusters hcategories).2.1.mp hall
    exact absurd hmany (by decide)
  · exact (sharing_keeps_members_if_as_many hclusters hone).2.1.mpr (by decide)

/-- **Of two spans at one position of a category one is lost**, though they differ in their
offsets. -/
theorem sharing_loses_members_at_one_position :
    let a : Span := ⟨1, 2, 0, by decide⟩
    let b : Span := ⟨0, 1, 1, by decide⟩
    InTextOrder [a, b] ∧ InTextOrder [a] ∧ membersOf [a] [a, b] = [a, b] ∧
      categorize [[a, b]] [[a]] = [[[a]]] ∧
      ¬ categorize [[a, b]] [[a]] = [[membersOf [a] [a, b]]] := by
  intro a b
  have hmembers : membersOf [a] [a, b] = [a, b] := by decide
  have hshared : categorize [[a, b]] [[a]] = [[[a]]] := by cbv
  refine ⟨by decide, by decide, hmembers, hshared, ?_⟩
  rw [hmembers, hshared]
  decide

end TaggedText.Spans
