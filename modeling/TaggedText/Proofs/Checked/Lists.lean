/-
# Checked operations on lists of spans

Merging a list, taking parts out of its spans, clusters and the hull, with every span that is made
on the way checked.  A cluster is gone through with its two bounds, and the span between them is made
for each span that is compared with it; these bounds are in order because they are the bounds of the
hull of the members so far.  Taking out parts makes a span on one side of a cut, or one on either
side, and the relation between the cut and the span is what keeps their bounds in order.

The members of clusters and categories are compared by their positions in the text, which are sums;
so there it is asked that they fit.
-/
import TaggedText.Proofs.Checked.Spans
import TaggedText.Spans.Group

namespace TaggedText.Checked

/-! ## 1. Merging -/

/-- Going through spans with a current one. -/
def sweep (contiguous : Bool) (current : Span) : List Span → Checked (Except Fault (List Span))
  | [] => return .ok [current]
  | next :: rest =>
    if Spans.joins contiguous current next then do
      match ← merge current next with
      | .error e => return .error e
      | .ok merged => sweep contiguous merged rest
    else do
      let others ← sweep contiguous next rest
      return others.map (current :: ·)

theorem sweep_eq (contiguous : Bool) (current : Span) (spans : List Span) :
    sweep contiguous current spans = .ok (Spans.sweep contiguous current spans) := by
  induction spans generalizing current with
  | nil => rfl
  | cons next rest ih =>
    unfold sweep Spans.sweep
    split
    · rw [merge_eq, ok_bind]
      cases current.merge next with
      | error e => rfl
      | ok merged => exact ih merged
    · rw [ih]
      rfl

/-- The spans with those merged that intersect, and, if asked for, also those that meet. -/
def mergeAll (contiguous : Bool) (spans : List Span) : Checked (Except Fault (List Span)) :=
  match Span.sort spans with
  | [] => return .ok []
  | first :: rest => sweep contiguous first rest

theorem mergeAll_eq (contiguous : Bool) (spans : List Span) :
    mergeAll contiguous spans = .ok (Spans.merge contiguous spans) := by
  unfold mergeAll Spans.merge
  cases Span.sort spans with
  | nil => rfl
  | cons first rest => exact sweep_eq contiguous first rest

/-! ## 2. Taking parts out -/

/-- What is left of a span after cuts, and the parts split off behind a cut, the last one first. -/
def trim (current : Span) : List Span → Checked (Except Fault (Option Span × List Span))
  | [] => return .ok (some current, [])
  | cut :: rest =>
    if !current.intersects cut then return .ok (some current, [])
    else if current.offset ≠ cut.offset then return .error (.offsetsDiffer .subtraction)
    else if cut.overlaps current || cut.starts current then do
      let behind ← span cut.stop current.stop current.offset
      trim behind rest
    else if cut.during current then do
      let front ← span current.start cut.start current.offset
      let behind ← span cut.stop current.stop current.offset
      let others ← trim front rest
      return others.map fun (left, split) => (left, split ++ [behind])
    else if current.overlaps cut || cut.finishes current then do
      let front ← span current.start cut.start current.offset
      trim front rest
    else return .ok (none, [])

/-- **The relation of a cut to what is cut keeps the bounds of the parts in order.** -/
theorem trim_eq (current : Span) (cuts : List Span) :
    trim current cuts = .ok (Spans.trim current cuts) := by
  induction cuts generalizing current with
  | nil => rfl
  | cons cut rest ih =>
    unfold trim Spans.trim
    split
    · rfl
    split
    · rfl
    split
    · next h =>
      have hbehind : cut.stop ≤ current.stop := by
        simp only [Span.overlaps, Span.starts, Bool.or_eq_true, Bool.and_eq_true,
          decide_eq_true_eq] at h
        omega
      rw [span_eq hbehind, ok_bind]
      exact ih _
    split
    · next h =>
      obtain ⟨hfront, hbehind⟩ : current.start ≤ cut.start ∧ cut.stop ≤ current.stop := by
        simp only [Span.during, Bool.and_eq_true, decide_eq_true_eq] at h
        omega
      rw [span_eq hfront, ok_bind, span_eq hbehind, ok_bind, ih]
      rfl
    split
    · next h =>
      have hfront : current.start ≤ cut.start := by
        simp only [Span.overlaps, Span.finishes, Bool.or_eq_true, Bool.and_eq_true,
          decide_eq_true_eq] at h
        omega
      rw [span_eq hfront, ok_bind]
      exact ih _
    · rfl

/-- Taking merged cuts out of the spans in a queue. -/
def cutQueue (queue cuts : List Span) : Checked (Except Fault (List Span)) :=
  match queue with
  | [] => return .ok []
  | current :: waiting =>
    let ahead := cuts.dropWhile fun cut => !current.intersects cut
    match ahead with
    | [] => do
      let others ← cutQueue waiting cuts
      return others.map (current :: ·)
    | _ :: _ =>
      match _h : trim current ahead with
      | .error breach => .error breach
      | .ok (.error e) => return .error e
      | .ok (.ok (left, split)) => do
        let others ← cutQueue (split ++ waiting) ahead
        return others.map (left.toList ++ ·)
termination_by (Spans.totalLength queue, queue.length)
decreasing_by
  · simp only [Prod.lex_def, Spans.totalLength, List.length_cons]
    omega
  · rw [trim_eq, Except.ok.injEq] at _h
    simp only [Prod.lex_def, Spans.totalLength_append]
    rcases Spans.totalLength_trim _h with rfl | h'
    · simp only [Spans.totalLength, List.length_cons, List.nil_append]
      omega
    · left
      simp only [Spans.totalLength]
      omega

theorem cutQueue_eq (queue cuts : List Span) :
    cutQueue queue cuts = .ok (Spans.cutQueue queue cuts) := by
  fun_induction Spans.cutQueue queue cuts with
  | case1 cuts =>
    unfold cutQueue
    rfl
  | case2 cuts current waiting ahead hnone ih =>
    unfold cutQueue
    simp only [ahead] at hnone
    simp only [hnone, ih]
    rfl
  | case3 cuts current waiting ahead cut rest hsome e htrim =>
    have htrim' : trim current ahead = .ok (.error e) := (trim_eq current ahead).trans (htrim ▸ rfl)
    unfold cutQueue
    dsimp only
    split
    · next hnone => cases hnone.symm.trans hsome
    · split
      · next h => cases h.symm.trans htrim'
      · next h =>
        cases h.symm.trans htrim'
        rfl
      · next h => cases h.symm.trans htrim'
  | case4 cuts current waiting ahead cut rest hsome left split htrim ih =>
    have htrim' : trim current ahead = .ok (.ok (left, split)) :=
      (trim_eq current ahead).trans (htrim ▸ rfl)
    unfold cutQueue
    dsimp only
    split
    · next hnone => cases hnone.symm.trans hsome
    · split
      · next h => cases h.symm.trans htrim'
      · next h => cases h.symm.trans htrim'
      · next h =>
        cases h.symm.trans htrim'
        rw [ih]
        rfl

/-- The spans without the parts that the spans to discard cover. -/
def subtract (spans discard : List Span) : Checked (Except Fault (List Span)) := do
  match ← mergeAll false spans with
  | .error e => return .error e
  | .ok queue =>
    match ← mergeAll false discard with
    | .error e => return .error e
    | .ok cuts => cutQueue queue cuts

theorem subtract_eq (spans discard : List Span) :
    subtract spans discard = .ok (Spans.subtract spans discard) := by
  unfold subtract Spans.subtract
  rw [mergeAll_eq, ok_bind]
  cases Spans.merge false spans with
  | error e => rfl
  | ok queue =>
    simp only [mergeAll_eq, ok_bind]
    cases Spans.merge false discard with
    | error e => rfl
    | ok cuts => exact cutQueue_eq queue cuts

/-! ## 3. Clusters and hulls -/

/-- Going through spans with the bounds of the current cluster and its members, the last one
first. -/
def clustersFrom (low high : Nat) (members : List Span) : List Span → Checked (List (List Span))
  | [] => return [members.reverse]
  | a :: rest => do
    let reach ← span low high 0
    if reach.intersects a then
      clustersFrom (min low a.start) (max high a.stop) (a :: members) rest
    else
      let others ← clustersFrom a.start a.stop [a] rest
      return members.reverse :: others

/-- **The bounds of a cluster stay in order**: they are those of the hull of its members, whatever
that is counted from. -/
theorem clustersFrom_eq {low high : Nat} (h : low ≤ high) (offset : Nat)
    (members spans : List Span) :
    clustersFrom low high members spans =
      .ok (Spans.clustersFrom ⟨low, high, offset, h⟩ members spans) := by
  induction spans generalizing low high offset members with
  | nil => rfl
  | cons a rest ih =>
    have ha := a.start_le_stop
    have hhull : min low a.start ≤ max high a.stop := by omega
    unfold clustersFrom Spans.clustersFrom
    rw [span_eq h, ok_bind]
    have hsame : Span.intersects ⟨low, high, 0, h⟩ a = Span.intersects ⟨low, high, offset, h⟩ a :=
      rfl
    rw [hsame]
    split
    · exact ih hhull offset (a :: members)
    · rw [ih ha a.offset [a]]
      rfl

/-- The spans in clusters. -/
def clusters : List Span → Checked (List (List Span))
  | [] => return []
  | first :: rest => clustersFrom first.start first.stop [first] rest

theorem clusters_eq (spans : List Span) : clusters spans = .ok (Spans.clusters spans) := by
  cases spans with
  | nil => rfl
  | cons first rest => exact clustersFrom_eq first.start_le_stop first.offset [first] rest

/-- The span from the least start to the greatest stop, counted from the beginning of the text. -/
def hull? (spans : List Span) : Checked (Option Span) :=
  match (spans.map Span.start).min?, (spans.map Span.stop).max? with
  | some low, some high => do
    let hull ← span low high 0
    return some hull
  | _, _ => return none

theorem foldl_hull (first : Span) (rest : List Span) :
    (rest.foldl Span.hull first).start = (rest.map Span.start).foldl min first.start ∧
      (rest.foldl Span.hull first).stop = (rest.map Span.stop).foldl max first.stop := by
  induction rest generalizing first with
  | nil => exact ⟨rfl, rfl⟩
  | cons a rest ih => exact ih (first.hull a)

theorem hull?_eq (spans : List Span) : hull? spans = .ok (Spans.hull? spans) := by
  cases spans with
  | nil => rfl
  | cons first rest =>
    obtain ⟨hlow, hhigh⟩ := foldl_hull first rest
    unfold hull?
    simp only [List.map_cons, List.min?_cons', List.max?_cons', ← hlow, ← hhigh]
    rw [span_eq (rest.foldl Span.hull first).start_le_stop]
    rfl

/-! ## 4. Categories -/

/-- The members of a cluster that are met when cluster and category are gone through side by side. -/
def common : List Span → List Span → Checked (List Span)
  | a :: cluster, b :: category => do
    let p ← bounds a
    let q ← bounds b
    match Spans.compareBounds p q with
    | .eq =>
      let others ← common cluster category
      return a :: others
    | .lt => common cluster (b :: category)
    | .gt => common (a :: cluster) category
  | _, _ => return []
termination_by cluster category => cluster.length + category.length

theorem common_eq {cluster category : List Span} (hcluster : ∀ a ∈ cluster, a.Fits)
    (hcategory : ∀ b ∈ category, b.Fits) :
    common cluster category = .ok (Spans.common cluster category) := by
  fun_induction Spans.common cluster category with
  | case1 a cluster b category heq ih =>
    obtain ⟨ha, hcluster⟩ := List.forall_mem_cons.mp hcluster
    obtain ⟨hb, hcategory⟩ := List.forall_mem_cons.mp hcategory
    unfold common
    simp only [bounds_eq ha, bounds_eq hb, ok_bind, heq, ih hcluster hcategory]
    rfl
  | case2 a cluster b category hlt ih =>
    have ha := (List.forall_mem_cons.mp hcluster).1
    have hb := (List.forall_mem_cons.mp hcategory).1
    unfold common
    simp only [bounds_eq ha, bounds_eq hb, ok_bind, hlt]
    exact ih (List.forall_mem_cons.mp hcluster).2 hcategory
  | case3 a cluster b category hgt ih =>
    have ha := (List.forall_mem_cons.mp hcluster).1
    have hb := (List.forall_mem_cons.mp hcategory).1
    unfold common
    simp only [bounds_eq ha, bounds_eq hb, ok_bind, hgt]
    exact ih hcluster (List.forall_mem_cons.mp hcategory).2
  | case4 cluster category hend =>
    unfold common
    split
    · next a cluster b category => exact absurd rfl (hend a cluster b category rfl)
    · rfl

/-- For each category, the common members of every cluster. -/
def categorize (clusters categories : List (List Span)) : Checked (List (List (List Span))) :=
  categories.mapM fun category => clusters.mapM fun cluster => common cluster category

/-- **Clusters and categories of spans that fit can be compared.** -/
theorem categorize_eq {clusters categories : List (List Span)}
    (hclusters : ∀ cluster ∈ clusters, ∀ a ∈ cluster, a.Fits)
    (hcategories : ∀ category ∈ categories, ∀ b ∈ category, b.Fits) :
    categorize clusters categories = .ok (Spans.categorize clusters categories) :=
  mapM_eq fun category hcategory => mapM_eq fun cluster hcluster =>
    common_eq (hclusters cluster hcluster) (hcategories category hcategory)

end TaggedText.Checked
