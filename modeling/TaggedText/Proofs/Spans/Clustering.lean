/-
# Clusters are what intersecting spans link

A cluster grows by the next span of a list as long as that one intersects the cluster's reach, the
hull of its members.  The list has to be in order of the starts; then the reach stops where one of
the members stops that start no later (`Reaches`), and this member intersects whatever the reach
intersects.

* The clusters are pieces of the list, none of them empty (`flatten_clusters`,
  `ne_nil_of_mem_clusters`), and **what is in a later cluster starts where all of an earlier one
  have stopped** (`pairwise_clusters`).
* For spans with positions, **two are in one cluster exactly if a chain of intersecting spans of
  the list links them** (`linked_of_mem_cluster`, `mem_cluster_of_linked`).  A span without
  positions that lies on a border would belong to either side and is left out here.

`clusters_are_components` puts both together.
-/
import TaggedText.Spans.Cluster
import TaggedText.Proofs.Spans.Covering
import Mathlib.Logic.Relation

namespace TaggedText.Spans

variable {spans members rest cluster cluster' : List Span} {reach a b : Span}

/-! ## 1. Pieces of the list -/

theorem flatten_clustersFrom (reach : Span) (members rest : List Span) :
    (clustersFrom reach members rest).flatten = members.reverse ++ rest := by
  induction rest generalizing reach members with
  | nil => simp [clustersFrom]
  | cons a rest ih =>
    unfold clustersFrom
    split
    · rw [ih, List.reverse_cons, List.append_assoc]
      rfl
    · rw [List.flatten_cons, ih]
      rfl

/-- **The clusters are pieces of the list**, in its order. -/
theorem flatten_clusters (spans : List Span) : (clusters spans).flatten = spans := by
  cases spans with
  | nil => rfl
  | cons first rest => exact flatten_clustersFrom first [first] rest

theorem mem_of_mem_clusters (h : cluster ∈ clusters spans) (ha : a ∈ cluster) : a ∈ spans :=
  flatten_clusters spans ▸ List.mem_flatten.mpr ⟨cluster, h, ha⟩

theorem exists_cluster (ha : a ∈ spans) : ∃ cluster ∈ clusters spans, a ∈ cluster := by
  rw [← flatten_clusters spans] at ha
  exact List.mem_flatten.mp ha

theorem ne_nil_of_mem_clustersFrom (hne : members ≠ [])
    (h : cluster ∈ clustersFrom reach members rest) : cluster ≠ [] := by
  induction rest generalizing reach members with
  | nil =>
    rw [List.mem_singleton.mp h]
    exact mt List.reverse_eq_nil_iff.mp hne
  | cons a rest ih =>
    unfold clustersFrom at h
    split at h
    · exact ih (List.cons_ne_nil a members) h
    · rcases List.mem_cons.mp h with rfl | h
      · exact mt List.reverse_eq_nil_iff.mp hne
      · exact ih (List.cons_ne_nil a []) h

/-- No cluster is empty. -/
theorem ne_nil_of_mem_clusters (h : cluster ∈ clusters spans) : cluster ≠ [] := by
  cases spans with
  | nil => cases h
  | cons first rest => exact ne_nil_of_mem_clustersFrom (List.cons_ne_nil first []) h

/-! ## 2. The reach of a cluster -/

/-- The starts are in order. -/
def StartsInOrder (spans : List Span) : Prop := spans.Pairwise fun a b => a.start ≤ b.start

theorem startsInOrder_of_sorted (h : Span.Sorted spans) : StartsInOrder spans :=
  h.imp fun hle => by rw [Span.le_iff] at hle; omega

/-- A reach covers the members of a cluster and stops where one of them stops. -/
structure Reaches (reach : Span) (members : List Span) : Prop where
  start_le : ∀ m ∈ members, reach.start ≤ m.start
  stop_le : ∀ m ∈ members, m.stop ≤ reach.stop
  attained : ∃ m ∈ members, m.stop = reach.stop

theorem reaches_self (a : Span) : Reaches a [a] where
  start_le _ hm := List.mem_singleton.mp hm ▸ Nat.le_refl _
  stop_le _ hm := List.mem_singleton.mp hm ▸ Nat.le_refl _
  attained := ⟨a, List.mem_singleton_self a, rfl⟩

/-- One more member. -/
theorem Reaches.hull (h : Reaches reach members) (a : Span) :
    Reaches (reach.hull a) (a :: members) where
  start_le m hm := by
    simp only [Span.hull]
    rcases List.mem_cons.mp hm with rfl | hm
    · exact Nat.min_le_right _ _
    · exact Nat.le_trans (Nat.min_le_left _ _) (h.start_le m hm)
  stop_le m hm := by
    simp only [Span.hull]
    rcases List.mem_cons.mp hm with rfl | hm
    · exact Nat.le_max_right _ _
    · exact Nat.le_trans (h.stop_le m hm) (Nat.le_max_left _ _)
  attained := by
    obtain ⟨m, hm, hstop⟩ := h.attained
    simp only [Span.hull]
    rcases Nat.le_total reach.stop a.stop with hle | hle
    · exact ⟨a, List.mem_cons_self, (Nat.max_eq_right hle).symm⟩
    · exact ⟨m, List.mem_cons_of_mem a hm, hstop.trans (Nat.max_eq_left hle).symm⟩

/-- What the reach does not intersect starts where all members have stopped. -/
theorem Reaches.stop_le_of_not_intersects (h : Reaches reach members)
    (hstart : ∀ m ∈ members, m.start ≤ a.start) (hno : reach.intersects a = false) :
    ∀ m ∈ members, m.stop ≤ a.start := by
  intro m hm
  have hreach := Nat.le_trans (h.start_le m hm) (hstart m hm)
  have hstop := h.stop_le m hm
  have ha := a.start_le_stop
  rw [← Bool.not_eq_true, Span.intersects_iff] at hno
  omega

/-- **What the reach intersects, a member intersects.** -/
theorem Reaches.exists_intersects (h : Reaches reach members)
    (hstart : ∀ m ∈ members, m.start ≤ a.start) (hmembers : ∀ m ∈ members, m.start < m.stop)
    (ha : a.start < a.stop) (hyes : reach.intersects a = true) :
    ∃ m ∈ members, m.intersects a = true := by
  obtain ⟨m, hm, hstop⟩ := h.attained
  have hreach := h.start_le m hm
  have hle := hstart m hm
  have hpositive := hmembers m hm
  rw [Span.intersects_iff] at hyes
  refine ⟨m, hm, Span.intersects_iff.mpr ?_⟩
  omega

/-! ## 3. Clusters are apart -/

theorem pairwise_clustersFrom (hreach : Reaches reach members)
    (hstart : ∀ m ∈ members, ∀ b ∈ rest, m.start ≤ b.start) (hrest : StartsInOrder rest) :
    (clustersFrom reach members rest).Pairwise fun c c' => ∀ a ∈ c, ∀ b ∈ c', a.stop ≤ b.start := by
  induction rest generalizing reach members with
  | nil => exact List.pairwise_singleton _ _
  | cons a rest ih =>
    obtain ⟨hfirst, hrest⟩ := List.pairwise_cons.mp hrest
    have hnext : ∀ m ∈ members, m.start ≤ a.start := fun m hm => hstart m hm a List.mem_cons_self
    unfold clustersFrom
    split
    · refine ih (hreach.hull a) (fun m hm b hb => ?_) hrest
      rcases List.mem_cons.mp hm with rfl | hm
      · exact hfirst b hb
      · exact hstart m hm b (List.mem_cons_of_mem a hb)
    · next hno =>
      have hstop := hreach.stop_le_of_not_intersects hnext (Bool.eq_false_iff.mpr hno)
      refine List.pairwise_cons.mpr ⟨fun c hc m hm b hb => ?_, ih (reaches_self a) ?_ hrest⟩
      · -- all that comes later starts where `a` starts or behind
        have hb : b ∈ a :: rest := by
          have hmem : b ∈ (clustersFrom a [a] rest).flatten := List.mem_flatten.mpr ⟨c, hc, hb⟩
          rw [flatten_clustersFrom] at hmem
          exact hmem
        refine Nat.le_trans (hstop m (List.mem_reverse.mp hm)) ?_
        rcases List.mem_cons.mp hb with rfl | hb
        · exact Nat.le_refl _
        · exact hfirst b hb
      · intro m hm b hb
        rw [List.mem_singleton.mp hm]
        exact hfirst b hb

/-- **What is in a later cluster starts where all of an earlier one have stopped.** -/
theorem pairwise_clusters (h : StartsInOrder spans) :
    (clusters spans).Pairwise fun c c' => ∀ a ∈ c, ∀ b ∈ c', a.stop ≤ b.start := by
  cases spans with
  | nil => exact List.Pairwise.nil
  | cons first rest =>
    obtain ⟨hfirst, hrest⟩ := List.pairwise_cons.mp h
    refine pairwise_clustersFrom (reaches_self first) (fun m hm b hb => ?_) hrest
    rw [List.mem_singleton.mp hm]
    exact hfirst b hb

section Positions

variable (h : StartsInOrder spans) (hpositive : ∀ a ∈ spans, a.start < a.stop)
include h hpositive

/-- Intersecting spans are in the same cluster. -/
theorem cluster_eq_of_intersects (hc : cluster ∈ clusters spans) (hc' : cluster' ∈ clusters spans)
    (ha : a ∈ cluster) (hb : b ∈ cluster') (hyes : a.intersects b = true) : cluster = cluster' := by
  have hsymm (c c' : List Span) : (∃ a ∈ c, ∃ b ∈ c', a.intersects b = true) →
      ∃ a ∈ c', ∃ b ∈ c, a.intersects b = true := by
    rintro ⟨a, ha, b, hb, hyes⟩
    exact ⟨b, hb, a, ha, Span.intersects_symm hyes⟩
  have hapart : (clusters spans).Pairwise fun c c' =>
      ¬ ∃ a ∈ c, ∃ b ∈ c', a.intersects b = true := by
    refine (pairwise_clusters h).imp_of_mem fun hc hc' hstops => ?_
    rintro ⟨a, ha, b, hb, hyes⟩
    have hstop := hstops a ha b hb
    have ha := hpositive a (mem_of_mem_clusters hc ha)
    have hb := hpositive b (mem_of_mem_clusters hc' hb)
    rw [Span.intersects_iff] at hyes
    omega
  exact Span.eq_of_pairwise_not hsymm hapart hc hc' ⟨a, ha, b, hb, hyes⟩

/-- No cluster is listed twice. -/
theorem nodup_clusters : (clusters spans).Nodup := by
  refine (pairwise_clusters h).imp_of_mem fun hc _ hstops => ?_
  rintro rfl
  obtain ⟨a, ha⟩ := List.exists_mem_of_ne_nil _ (ne_nil_of_mem_clusters hc)
  have hstop := hstops a ha a ha
  have ha := hpositive a (mem_of_mem_clusters hc ha)
  omega

end Positions

/-! ## 4. Clusters are linked -/

/-- Two spans of a list that intersect. -/
def Meeting (spans : List Span) (a b : Span) : Prop :=
  a ∈ spans ∧ b ∈ spans ∧ a.intersects b = true

instance : Std.Symm (Meeting spans) :=
  ⟨fun _ _ h => ⟨h.2.1, h.1, Span.intersects_symm h.2.2⟩⟩

theorem linked_symm (h : Relation.ReflTransGen (Meeting spans) a b) :
    Relation.ReflTransGen (Meeting spans) b a := Std.Symm.symm _ _ h

/-- Going on from members that are linked with each other, there are only such clusters. -/
theorem linked_of_mem_clustersFrom (hreach : Reaches reach members)
    (hstart : ∀ m ∈ members, ∀ b ∈ rest, m.start ≤ b.start) (hrest : StartsInOrder rest)
    (hmembers : ∀ m ∈ members, m ∈ spans) (hspans : ∀ b ∈ rest, b ∈ spans)
    (hpositive : ∀ a ∈ spans, a.start < a.stop)
    (hlinked : ∀ m ∈ members, ∀ m' ∈ members, Relation.ReflTransGen (Meeting spans) m m')
    (hc : cluster ∈ clustersFrom reach members rest) (ha : a ∈ cluster) (hb : b ∈ cluster) :
    Relation.ReflTransGen (Meeting spans) a b := by
  induction rest generalizing reach members with
  | nil =>
    rw [List.mem_singleton.mp hc, List.mem_reverse] at ha hb
    exact hlinked a ha b hb
  | cons next rest ih =>
    obtain ⟨hfirst, hrest⟩ := List.pairwise_cons.mp hrest
    have hnext : next ∈ spans := hspans next List.mem_cons_self
    have hspans : ∀ b ∈ rest, b ∈ spans := fun b hb => hspans b (List.mem_cons_of_mem next hb)
    unfold clustersFrom at hc
    split at hc
    · next hyes =>
      obtain ⟨m, hm, hmeets⟩ := hreach.exists_intersects
        (fun m hm => hstart m hm next List.mem_cons_self) (fun m hm => hpositive m (hmembers m hm))
        (hpositive next hnext) hyes
      -- the new member is linked with `m`, and `m` with all the others
      have hto : ∀ m' ∈ members, Relation.ReflTransGen (Meeting spans) m' next := fun m' hm' =>
        (hlinked m' hm' m hm).tail ⟨hmembers m hm, hnext, hmeets⟩
      refine ih (hreach.hull next) ?_ hrest (List.forall_mem_cons.mpr ⟨hnext, hmembers⟩) hspans
        ?_ hc
      · exact List.forall_mem_cons.mpr
          ⟨hfirst, fun m hm b hb => hstart m hm b (List.mem_cons_of_mem next hb)⟩
      · exact List.forall_mem_cons.mpr
          ⟨List.forall_mem_cons.mpr ⟨.refl, fun m hm => linked_symm (hto m hm)⟩,
            fun m hm => List.forall_mem_cons.mpr ⟨hto m hm, hlinked m hm⟩⟩
    · rcases List.mem_cons.mp hc with rfl | hc
      · exact hlinked a (List.mem_reverse.mp ha) b (List.mem_reverse.mp hb)
      · refine ih (reaches_self next) ?_ hrest ?_ hspans ?_ hc
        · intro m hm b hb
          rw [List.mem_singleton.mp hm]
          exact hfirst b hb
        · intro m hm
          rw [List.mem_singleton.mp hm]
          exact hnext
        · intro m hm m' hm'
          rw [List.mem_singleton.mp hm, List.mem_singleton.mp hm']

/-- **Spans in one cluster are linked.** -/
theorem linked_of_mem_cluster (h : StartsInOrder spans) (hpositive : ∀ a ∈ spans, a.start < a.stop)
    (hc : cluster ∈ clusters spans) (ha : a ∈ cluster) (hb : b ∈ cluster) :
    Relation.ReflTransGen (Meeting spans) a b := by
  cases spans with
  | nil => cases hc
  | cons first rest =>
    obtain ⟨hfirst, hrest⟩ := List.pairwise_cons.mp h
    refine linked_of_mem_clustersFrom (reaches_self first) ?_ hrest ?_
      (fun b => List.mem_cons_of_mem first) hpositive ?_ hc ha hb
    · intro m hm b hb
      rw [List.mem_singleton.mp hm]
      exact hfirst b hb
    · intro m hm
      rw [List.mem_singleton.mp hm]
      exact List.mem_cons_self
    · intro m hm m' hm'
      rw [List.mem_singleton.mp hm, List.mem_singleton.mp hm']

/-- **Spans that are linked are in one cluster.** -/
theorem mem_cluster_of_linked (h : StartsInOrder spans) (hpositive : ∀ a ∈ spans, a.start < a.stop)
    (hc : cluster ∈ clusters spans) (ha : a ∈ cluster)
    (hlinked : Relation.ReflTransGen (Meeting spans) a b) : b ∈ cluster := by
  induction hlinked with
  | refl => exact ha
  | tail _ hmeeting ih =>
    obtain ⟨-, hb, hyes⟩ := hmeeting
    obtain ⟨cluster', hc', hb⟩ := exists_cluster hb
    rw [cluster_eq_of_intersects h hpositive hc hc' ih hb hyes]
    exact hb

/-! ## 5. Clusters are components -/

/-- **Clusters are components.**  They are pieces of the list, none is empty, and what is in a later
one starts where all of an earlier one have stopped.  If all spans have positions, two places in the
list are in one cluster exactly if a chain of intersecting spans links what stands there. -/
theorem clusters_are_components (h : StartsInOrder spans) :
    (clusters spans).flatten = spans ∧ (∀ cluster ∈ clusters spans, cluster ≠ []) ∧
      ((clusters spans).Pairwise fun c c' => ∀ a ∈ c, ∀ b ∈ c', a.stop ≤ b.start) ∧
      ((∀ a ∈ spans, a.start < a.stop) → ∀ (i j : Nat) (c c' : List Span),
        (clusters spans)[i]? = some c → (clusters spans)[j]? = some c' → ∀ a ∈ c, ∀ b ∈ c',
          (i = j ↔ Relation.ReflTransGen (Meeting spans) a b)) := by
  refine ⟨flatten_clusters spans, fun _ => ne_nil_of_mem_clusters, pairwise_clusters h, ?_⟩
  intro hpositive i j c c' hi hj a ha b hb
  have hc : c ∈ clusters spans := List.mem_of_getElem? hi
  have hc' : c' ∈ clusters spans := List.mem_of_getElem? hj
  constructor
  · rintro rfl
    cases hi.symm.trans hj
    exact linked_of_mem_cluster h hpositive hc ha hb
  · intro hlinked
    have hsame : c = c' := cluster_eq_of_intersects h hpositive hc hc'
      (mem_cluster_of_linked h hpositive hc ha hlinked) hb (Span.intersects_self b)
    obtain ⟨hlt, -⟩ := List.getElem?_eq_some_iff.mp hi
    exact (List.getElem?_inj hlt (nodup_clusters h hpositive)).mp (by rw [hi, hj, hsame])

/-- Common starts, a long span over two short ones that do not intersect, and one that only meets
it. -/
theorem clusters_are_components_bridged :
    let spans : List Span := [⟨1, 3, 0, by decide⟩, ⟨1, 2, 5, by decide⟩, ⟨4, 10, 0, by decide⟩,
      ⟨4, 5, 0, by decide⟩, ⟨6, 7, 1, by decide⟩, ⟨10, 12, 0, by decide⟩]
    StartsInOrder spans ∧ (∀ a ∈ spans, a.start < a.stop) ∧
      clusters spans = [[⟨1, 3, 0, by decide⟩, ⟨1, 2, 5, by decide⟩], [⟨4, 10, 0, by decide⟩,
        ⟨4, 5, 0, by decide⟩, ⟨6, 7, 1, by decide⟩], [⟨10, 12, 0, by decide⟩]] ∧
      Relation.ReflTransGen (Meeting spans) ⟨4, 5, 0, by decide⟩ ⟨6, 7, 1, by decide⟩ ∧
      ¬ Relation.ReflTransGen (Meeting spans) ⟨4, 10, 0, by decide⟩ ⟨10, 12, 0, by decide⟩ := by
  intro spans
  have hstarts : StartsInOrder spans := by unfold StartsInOrder spans; decide
  have hpositive : ∀ a ∈ spans, a.start < a.stop := by unfold spans; decide
  obtain ⟨-, -, -, hlinked⟩ := clusters_are_components hstarts
  refine ⟨hstarts, hpositive, rfl, ?_, ?_⟩
  · exact (hlinked hpositive 1 1 _ _ rfl rfl _ (by decide) _ (by decide)).mp rfl
  · intro hchain
    have hsame : 1 = 2 :=
      (hlinked hpositive 1 2 _ _ rfl rfl _ (by decide) _ (by decide)).mpr hchain
    exact absurd hsame (by decide)

end TaggedText.Spans
