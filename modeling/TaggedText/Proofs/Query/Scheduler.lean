/-
# What waits

A scheduler keeps twice which leaves wait: in its list of entries, and in the plan, where each leaf
has its number and remembers its estimate.  `Scheduler.Coherent` says that the two agree: **the
entries stand in order, and they are the leaves that have an estimate and have not been evaluated**.

A visit changes entries of the nodes that it visits and no others (`visit_gives`), so the list is
right for the parts of a node that have been visited as well as for those that have not.  At the end
it is right for all: `update_gives`.
-/
import TaggedText.Proofs.Query.Plan

namespace TaggedText.Query

variable {a b c : Pending} {pending : List Pending}

/-! ## 1. Entries in order -/

theorem Pending.Precedes.trans (h : a.Precedes b) (h' : b.Precedes c) : a.Precedes c := by
  unfold Pending.Precedes at *
  omega

theorem Pending.Precedes.ne (h : a.Precedes b) : a ≠ b := by
  rintro rfl
  unfold Pending.Precedes at h
  omega

theorem Pending.precedes_of_not (h : ¬ a.Precedes b) (hne : a ≠ b) : b.Precedes a := by
  obtain ⟨e, i⟩ := a
  obtain ⟨e', i'⟩ := b
  have hne : e ≠ e' ∨ i ≠ i' := by simpa [Prod.ext_iff, ← not_and_or] using hne
  unfold Pending.Precedes at *
  omega

/-- Entries in order, each once. -/
def InOrder (pending : List Pending) : Prop := pending.Pairwise Pending.Precedes

theorem InOrder.nodup (h : InOrder pending) : pending.Nodup := h.imp Pending.Precedes.ne

theorem InOrder.mem_erase (h : InOrder pending) : b ∈ pending.erase a ↔ b ≠ a ∧ b ∈ pending :=
  h.nodup.mem_erase_iff

theorem mem_enter : b ∈ enter a pending ↔ b = a ∨ b ∈ pending := by
  induction pending with
  | nil => simp [enter]
  | cons first rest ih =>
    unfold enter
    split
    · exact List.mem_cons
    split
    · next heq => simp [heq]
    · rw [List.mem_cons, ih, List.mem_cons]
      exact or_left_comm

/-- **An entry is put in its place.** -/
theorem InOrder.enter (h : InOrder pending) (a : Pending) : InOrder (enter a pending) := by
  induction pending with
  | nil => exact List.pairwise_singleton _ a
  | cons first rest ih =>
    obtain ⟨hfirst, hrest⟩ := List.pairwise_cons.mp h
    unfold Query.enter
    split
    · next hbefore =>
      refine List.pairwise_cons.mpr ⟨fun b hb => ?_, h⟩
      rcases List.mem_cons.mp hb with rfl | hb
      · exact hbefore
      · exact hbefore.trans (hfirst b hb)
    split
    · exact h
    · next hnot hne =>
      refine List.pairwise_cons.mpr ⟨fun b hb => ?_, ih hrest⟩
      rcases mem_enter.mp hb with rfl | hb
      · exact Pending.precedes_of_not hnot hne
      · exact hfirst b hb

theorem InOrder.reenter (h : InOrder pending) (number : Nat) (previous : Option Nat)
    (estimate : Nat) : InOrder (reenter number previous estimate pending) := by
  cases previous with
  | none => exact h.enter _
  | some e => exact InOrder.enter (h.sublist List.erase_sublist) _

namespace Scheduler

open Plan

variable {columns : List (List Span)} {known : Nat → Prop}

/-! ## 2. Visits -/

/-- The entries of numbers from `number` on, `size` many, are these. -/
def Lists (number size : Nat) (entries pending : List Pending) : Prop :=
  ∀ a : Pending, number ≤ a.2 → a.2 < number + size → (a ∈ pending ↔ a ∈ entries)

theorem Lists.front {number size size' : Nat} {entries entries' : List Pending}
    (h : Lists number (size + size') (entries ++ entries') pending)
    (hbehind : ∀ a ∈ entries', number + size ≤ a.2) : Lists number size entries pending := by
  intro a hle hlt
  rw [h a hle (by omega), List.mem_append]
  refine or_iff_left fun ha => ?_
  have := hbehind a ha
  omega

/-- **What a visit does to the entries**: those of the numbers visited are these afterwards, and all
others are what they were. -/
structure Visited (number size : Nat) (entries pending pending' : List Pending) : Prop where
  order : InOrder pending'
  mem : ∀ a, a ∈ pending' ↔
    a ∈ entries ∨ a ∈ pending ∧ ¬ (number ≤ a.2 ∧ a.2 < number + size)

/-- Where the entries are right already, nothing need be done. -/
theorem Visited.refl {number size : Nat} {entries : List Pending} (h : InOrder pending)
    (hlists : Lists number size entries pending)
    (hentries : ∀ a ∈ entries, number ≤ a.2 ∧ a.2 < number + size) :
    Visited number size entries pending pending where
  order := h
  mem a := by
    by_cases hin : number ≤ a.2 ∧ a.2 < number + size
    · rw [hlists a hin.1 hin.2]
      exact (or_iff_left fun h => h.2 hin).symm
    · have hnot : a ∉ entries := fun ha => hin (hentries a ha)
      rw [or_iff_right hnot, and_iff_left hin]

/-- **A leaf gets its new entry in place of the old one.** -/
theorem visited_leaf {number estimate : Nat} {previous : Option Nat} (h : InOrder pending)
    (hlists : Lists number 1 (previous.toList.map fun e => (e, number)) pending) :
    Visited number 1 [(estimate, number)] pending (reenter number previous estimate pending) where
  order := h.reenter number previous estimate
  mem a := by
    obtain ⟨e, i⟩ := a
    have hat := hlists (e, i)
    rw [List.mem_singleton]
    cases previous with
    | none =>
      simp only [reenter, mem_enter, Option.toList_none, List.map_nil, List.not_mem_nil] at hat ⊢
      constructor
      · rintro (heq | hmem)
        · exact .inl heq
        · exact .inr ⟨hmem, fun hin => (hat hin.1 hin.2).mp hmem⟩
      · rintro (heq | ⟨hmem, -⟩)
        · exact .inl heq
        · exact .inr hmem
    | some e' =>
      simp only [reenter, mem_enter, h.mem_erase, Option.toList_some, List.map_cons, List.map_nil,
        List.mem_singleton] at hat ⊢
      constructor
      · rintro (heq | ⟨hne, hmem⟩)
        · exact .inl heq
        · exact .inr ⟨hmem, fun hin => hne ((hat hin.1 hin.2).mp hmem)⟩
      · rintro (heq | ⟨hmem, hout⟩)
        · exact .inl heq
        · refine .inr ⟨fun heq => hout ?_, hmem⟩
          rw [Prod.mk.injEq] at heq
          exact ⟨by simp [heq.2], by simp [heq.2]⟩

/-- A node and those below it are visited with the nodes below it, as it has no entry. -/
theorem Visited.below {number size : Nat} {entries pending' : List Pending}
    (hlists : Lists number (1 + size) entries pending)
    (hentries : ∀ a ∈ entries, number + 1 ≤ a.2 ∧ a.2 < number + 1 + size)
    {entries' : List Pending} (h : Visited (number + 1) size entries' pending pending') :
    Visited number (1 + size) entries' pending pending' where
  order := h.order
  mem a := by
    rw [h.mem]
    refine or_congr_right (and_congr_right fun ha => not_congr ⟨by omega, fun hin => ?_⟩)
    exact hentries a ((hlists a hin.1 hin.2).mp ha)

/-- **A visit leaves the entries behind as they are**, for the nodes that are visited next. -/
theorem Visited.lists_behind {number size size' : Nat} {entries entries' visited pending' : List Pending}
    (hlists : Lists number (size + size') (entries ++ entries') pending)
    (hentries : ∀ a ∈ entries, a.2 < number + size)
    (h : Visited number size visited pending pending')
    (hvisited : ∀ a ∈ visited, a.2 < number + size) :
    Lists (number + size) size' entries' pending' := by
  intro a hle hlt
  have hnot : a ∉ entries := fun ha => by
    have := hentries a ha
    omega
  have hnot' : a ∉ visited := fun ha => by
    have := hvisited a ha
    omega
  have hout : ¬ (number ≤ a.2 ∧ a.2 < number + size) := by omega
  rw [h.mem, or_iff_right hnot', and_iff_left hout, hlists a (by omega) (by omega),
    List.mem_append, or_iff_right hnot]

/-- **Nodes are visited one after the other.** -/
theorem Visited.append {number size size' : Nat} {entries entries' pending' pending'' : List Pending}
    (hentries : ∀ a ∈ entries, number ≤ a.2 ∧ a.2 < number + size)
    (h : Visited number size entries pending pending')
    (h' : Visited (number + size) size' entries' pending' pending'') :
    Visited number (size + size') (entries ++ entries') pending pending'' where
  order := h'.order
  mem a := by
    rw [h'.mem, h.mem, List.mem_append]
    have hout : a ∈ entries → ¬ (number + size ≤ a.2 ∧ a.2 < number + size + size') := by
      intro ha
      have := hentries a ha
      omega
    have hsplit : (number ≤ a.2 ∧ a.2 < number + (size + size')) ↔
        (number ≤ a.2 ∧ a.2 < number + size) ∨
          (number + size ≤ a.2 ∧ a.2 < number + size + size') := by
      omega
    rw [hsplit, not_or, ← and_assoc, or_and_right, and_iff_left_of_imp hout, or_left_comm, or_assoc]

mutual

/-- **A visit makes of the plan what it makes of it without entries**, and puts the entries of its
leaves right. -/
theorem visit_gives : ∀ {p p' : Plan} {bound found : Option (List Table)} (number : Nat)
    {pending : List Pending}, p.refresh columns bound = .ok (p', found) → InOrder pending →
    Lists number p.tree.size (p.estimatesFrom number) pending →
    ∃ pending', visit columns bound number pending p = .ok (p', found, pending') ∧
      p'.tree = p.tree ∧
      Visited number p.tree.size (p'.estimatesFrom number) pending pending'
  | .leaf l previous none, _, _, _, number, _, h, horder, hlists => by
    cases h
    exact ⟨_, rfl, rfl, visited_leaf horder hlists⟩
  | .leaf l estimate (some own), _, _, _, number, _, h, horder, hlists => by
    cases h
    exact ⟨_, rfl, rfl, .refl horder hlists fun a => bounds_of_mem_estimatesFrom⟩
  | .node connective true held parts, _, _, _, number, _, h, horder, hlists => by
    cases h
    exact ⟨_, rfl, rfl, .refl horder hlists fun a => bounds_of_mem_estimatesFrom⟩
  | .node connective false held parts, p', bound, found, number, pending, h, horder, hlists => by
    obtain ⟨⟨held', parts'⟩, hparts, h⟩ := exists_of_map_ok h
    have hbelow : Lists (number + 1) (Tree.sizes (trees parts)) (estimatesIn (number + 1) parts)
        pending := fun a hle hlt => hlists a (by omega) (by rw [tree, Tree.size]; omega)
    obtain ⟨pending', hvisit, htrees, hvisited⟩ :=
      visitParts_gives (number + 1) hparts horder hbelow
    have hnode := hvisited.below hlists fun a => bounds_of_mem_estimatesIn
    rw [visit, hvisit]
    dsimp only at h
    split at h
    · next hall =>
      cases h
      exact ⟨pending', by rw [ok_bind]; exact if_pos hall, by rw [tree, tree, htrees], hnode⟩
    · next hall =>
      cases h
      exact ⟨pending', by rw [ok_bind]; exact if_neg hall, by rw [tree, tree, htrees], hnode⟩

/-- The same for the parts of a node. -/
theorem visitParts_gives : ∀ {parts parts' : List Plan} {binds : Bool}
    {bound : Option (List Table)} {connective : Connective} {held held' : List Table}
    (number : Nat) {pending : List Pending},
    refreshParts columns binds bound connective held parts = .ok (held', parts') →
    InOrder pending →
    Lists number (Tree.sizes (trees parts)) (estimatesIn number parts) pending →
    ∃ pending', visitParts columns binds bound connective held number pending parts =
        .ok (held', parts', pending') ∧
      trees parts' = trees parts ∧
      Visited number (Tree.sizes (trees parts)) (estimatesIn number parts') pending pending'
  | [], _, _, _, _, _, _, number, _, h, horder, hlists => by
    cases h
    exact ⟨_, rfl, rfl, .refl horder hlists fun a ha => absurd ha List.not_mem_nil⟩
  | p :: rest, parts', binds, bound, connective, held, held', number, pending, h, horder,
    hlists => by
    obtain ⟨⟨p', found⟩, hfirst, h⟩ := exists_of_bind_ok h
    obtain ⟨middle, habsorbed, h⟩ := exists_of_bind_ok h
    obtain ⟨⟨_, rest'⟩, hrest, h⟩ := exists_of_map_ok h
    cases h
    rw [trees, Tree.sizes, estimatesIn] at hlists
    obtain ⟨pending', hvisit, htree, hvisited⟩ := visit_gives number hfirst horder
      (hlists.front fun a ha => (bounds_of_mem_estimatesIn ha).1)
    -- the visited part has the numbers that it had before
    have hfront : ∀ a ∈ p'.estimatesFrom number, number ≤ a.2 ∧ a.2 < number + p.tree.size :=
      fun a ha => htree ▸ bounds_of_mem_estimatesFrom ha
    obtain ⟨pending'', hvisit', htrees, hvisited'⟩ :=
      visitParts_gives (number + p.tree.size) hrest hvisited.order
        (hvisited.lists_behind hlists (fun a ha => (bounds_of_mem_estimatesFrom ha).2)
          fun a ha => (hfront a ha).2)
    refine ⟨pending'', ?_, by rw [trees, trees, htree, htrees], ?_⟩
    · rw [visitParts, hvisit, ok_bind]
      dsimp only
      rw [habsorbed, ok_bind, hvisit', ok_bind]
      rfl
    · rw [trees, Tree.sizes, estimatesIn, htree]
      exact hvisited.append hfront hvisited'

end

/-! ## 3. Updates -/

/-- **What waits agrees with the plan**: the entries stand in order, and they are the leaves that have
been estimated and not evaluated, each with its estimate. -/
structure Coherent (s : Scheduler) : Prop where
  order : InOrder s.pending
  mem : ∀ a, a ∈ s.pending ↔ a ∈ s.plan.estimates

theorem Coherent.perm {s : Scheduler} (h : s.Coherent) : s.pending.Perm s.plan.estimates :=
  (List.perm_ext_iff_of_nodup h.order.nodup (nodup_estimatesFrom 0 s.plan)).mpr h.mem

mutual

theorem estimatesFrom_ofTree : ∀ (number : Nat) (t : Tree),
    (Plan.ofTree t).estimatesFrom number = []
  | _, .leaf _ => rfl
  | number, .node _ parts => estimatesIn_ofTrees (number + 1) parts

theorem estimatesIn_ofTrees : ∀ (number : Nat) (parts : List Tree),
    estimatesIn number (ofTrees parts) = []
  | _, [] => rfl
  | number, t :: rest => by
    rw [ofTrees, estimatesIn, estimatesFrom_ofTree number t, estimatesIn_ofTrees _ rest]
    rfl

end

/-- **Nothing waits at first.** -/
theorem coherent_ofTree (t : Tree) : (ofTree t).Coherent where
  order := List.Pairwise.nil
  mem a := by
    rw [Plan.estimates, ofTree, estimatesFrom_ofTree]

/-- **An update does not fail.**  It settles the plan, and the entries agree with it afterwards. -/
theorem update_gives {s : Scheduler} (hs : s.plan.Sound columns known) (hc : s.Coherent) :
    ∃ s' found, s.update columns = .ok s' ∧
      s.plan.refresh columns none = .ok (s'.plan, found) ∧
      Refreshed columns known s.plan s'.plan found ∧ s'.Coherent := by
  obtain ⟨p', found, hrefresh, hr⟩ := refresh_ok none hs
  obtain ⟨pending', hvisit, htree, hvisited⟩ :=
    visit_gives 0 hrefresh hc.order fun a _ _ => hc.mem a
  refine ⟨⟨p', pending'⟩, found, by rw [update, hvisit]; rfl, hrefresh, hr, hvisited.order,
    fun a => ?_⟩
  rw [hvisited.mem]
  refine or_iff_left fun ⟨ha, hout⟩ => hout ?_
  exact bounds_of_mem_estimatesFrom ((hc.mem a).mp ha)

end Scheduler

end TaggedText.Query
