/-
# How an evaluation goes on

An evaluation updates a scheduler and then goes round by round, one leaf each.  **A round fails only
when no leaf waits** (`rounds_gives`), so an evaluation takes as many rounds as the tree has leaves
and ends with a finished plan (`run_gives`).

Updates and steps may come in any other order as well.  Whatever the order, **no entry goes stale**:
those that a scheduler keeps are the estimates of its plan (`Reachable.coherent`).  And the tables
that a node holds are over the columns that the leaves use, no two of them over the same ones:
`Plan.proper_of_reachable`.
-/
import Mathlib
import TaggedText.Proofs.Query.Numbering
import TaggedText.Proofs.Query.Step

namespace TaggedText

/-! ## 1. Actions on a state -/

/-- How an action on a state ends when it starts from a given one. -/
def endFrom {ε σ α : Type} (x : ExceptT ε (StateM σ) α) (s : σ) : Except ε α :=
  (x.run.run s).run.1

theorem gives_endFrom {ε σ α : Type} (x : ExceptT ε (StateM σ) α) (s : σ) :
    Gives x (endFrom x s) :=
  ⟨s, (x.run.run s).run.2, rfl⟩

namespace Query

namespace Plan

/-! ## 2. Nodes -/

/-- `q` is a node of `p`, and these nodes lie above it, the nearest first. -/
inductive Above : Plan → List Plan → Plan → Prop
  | root {p : Plan} : Above p [] p
  | part {p : Plan} {outer : List Plan} {connective : Connective} {done : Bool}
      {held : List Table} {parts : List Plan} {q : Plan}
      (node : Above p outer (.node connective done held parts)) (part : q ∈ parts) :
      Above p (.node connective done held parts :: outer) q

section Above

variable {columns : List (List Span)} {known : Nat → Prop} {p q : Plan} {outer : List Plan}

theorem Sound.of_above (h : Above p outer q) (hs : p.Sound columns known) :
    q.Sound columns known := by
  induction h with
  | root => exact hs
  | part _ part ih =>
    exact ih.of_mem part

theorem Settled.of_above (h : Above p outer q) (hs : p.Settled) : q.Settled := by
  induction h with
  | root => exact hs
  | part _ part ih =>
    exact ih.of_mem part

end Above

end Plan

/-! ## 3. Any order -/

/-- The states that updates and steps lead to in any order, whatever the user's predicates make of
the state that they act on. -/
inductive Scheduler.Reachable {σ : Type} (judge : Judge (StateM σ)) (columns : List (List Span))
    (t : Tree) : Scheduler → Prop
  | start : Reachable judge columns t (ofTree t)
  | update {s s' : Scheduler} (reachable : Reachable judge columns t s)
      (updated : s.update columns = .ok s') : Reachable judge columns t s'
  | step {s s' : Scheduler} {user : σ} (reachable : Reachable judge columns t s)
      (stepped : endFrom (s.step judge columns) user = .ok s') : Reachable judge columns t s'

/-- **Whatever the order, the plan is sound and the entries agree with it.** -/
theorem Scheduler.Reachable.sound_and_coherent {σ : Type} {judge : Judge (StateM σ)}
    {columns : List (List Span)} {t : Tree} (ht : t.Formed) {s : Scheduler}
    (h : Reachable judge columns t s) : s.plan.Sound columns (· ∈ t.used) ∧ s.Coherent := by
  induction h with
  | start =>
    exact ⟨Plan.sound_ofTree ht fun l hl c hc => List.mem_flatMap.mpr ⟨l, hl, hc⟩,
      coherent_ofTree t⟩
  | @update s s' _ updated ih =>
    obtain ⟨_, _, hok, -, hr, hc⟩ := update_gives ih.1 ih.2
    rw [updated] at hok
    cases hok
    exact ⟨hr.sound, hc⟩
  | @step s s' user _ stepped ih =>
    have hgives := gives_endFrom (s.step judge columns) user
    rw [stepped] at hgives
    rcases step_gives ih.1 ih.2 hgives with ⟨he, -⟩ | ⟨_, _, _, _, hok, -, heval, -, hc⟩
    · cases he
    · cases hok
      exact ⟨heval.sound ih.1, hc⟩

theorem Scheduler.Reachable.sound {σ : Type} {judge : Judge (StateM σ)}
    {columns : List (List Span)} {t : Tree} (ht : t.Formed) {s : Scheduler}
    (h : Reachable judge columns t s) : s.plan.Sound columns (· ∈ t.used) :=
  (h.sound_and_coherent ht).1

theorem Scheduler.Reachable.coherent {σ : Type} {judge : Judge (StateM σ)}
    {columns : List (List Span)} {t : Tree} (ht : t.Formed) {s : Scheduler}
    (h : Reachable judge columns t s) : s.Coherent :=
  (h.sound_and_coherent ht).2

namespace Plan

/-- **The tables that a node holds have columns that the leaves use, at least one and in increasing
order, and each row has a span of its column at every place; no two of them have the same columns**,
in whatever order updates and steps have come. -/
theorem proper_of_reachable {σ : Type} (judge : Judge (StateM σ)) (columns : List (List Span))
    {t : Tree} (ht : t.Formed) {s : Scheduler} (h : s.Reachable judge columns t)
    {outer : List Plan} {q : Plan} (hq : Above s.plan outer q) :
    Table.Proper (· ∈ t.used) (InColumn columns) q.held :=
  ((h.sound ht).of_above hq).proper_held

/-- After an update and a step the conjunction holds the rows of its first leaf. -/
theorem proper_of_reachable_first :
    let span : Span := ⟨0, 1, 0, by decide⟩
    let columns : List (List Span) := [[span], [span, ⟨1, 3, 0, by decide⟩]]
    let t := Tree.node .conjunction [.leaf ⟨.user "seen", [0]⟩, .leaf ⟨.relation .before, [1, 0]⟩]
    Table.Proper (· ∈ t.used) (InColumn columns) [⟨[0], [[span]]⟩] := by
  intro span columns t
  let judge : Judge (StateM Nat) := fun _ _ n => (true, n + 1)
  let waits : Plan := .leaf ⟨.relation .before, [1, 0]⟩ (some 2) none
  let started : Scheduler :=
    ⟨.node .conjunction false [] [.leaf ⟨.user "seen", [0]⟩ (some 1) none, waits], [(1, 1), (2, 2)]⟩
  let stepped : Scheduler :=
    ⟨.node .conjunction false [⟨[0], [[span]]⟩]
      [.leaf ⟨.user "seen", [0]⟩ (some 1) (some ⟨[0], [[span]]⟩), waits], [(2, 2)]⟩
  have hupdate : (Scheduler.ofTree t).update columns = .ok started := by cbv
  have hstep : endFrom (started.step judge columns) 0 = .ok stepped := by cbv
  exact proper_of_reachable judge columns (s := stepped)
    (.node (by simp) (by simp [Tree.Formed.leaf])) (.step (.update .start hupdate) hstep) .root

/-! ## 4. Leaves of a tree -/

mutual

theorem length_unevaluated_ofTree : ∀ (number : Nat) (t : Tree),
    ((ofTree t).unevaluatedFrom number).length = t.leaves.length
  | _, .leaf _ => rfl
  | number, .node _ parts => length_unevaluated_ofTrees (number + 1) parts

theorem length_unevaluated_ofTrees : ∀ (number : Nat) (parts : List Tree),
    (unevaluatedIn number (ofTrees parts)).length = (Tree.leavesIn parts).length
  | _, [] => rfl
  | number, t :: rest => by
    rw [ofTrees, unevaluatedIn, Tree.leavesIn, List.length_append, List.length_append,
      length_unevaluated_ofTree number t, length_unevaluated_ofTrees _ rest]

end

/-- The numbers of the leaves among nodes that are numbered from some number on. -/
def leafNumbersFrom (number : Nat) (entries : List Tree.Entry) : List Nat :=
  ((entries.zipIdx number).filter fun (entry, _) => entry.content.isLeft).map Prod.snd

theorem leafNumbersFrom_append (number : Nat) (left right : List Tree.Entry) :
    leafNumbersFrom number (left ++ right) =
      leafNumbersFrom number left ++ leafNumbersFrom (number + left.length) right := by
  simp [leafNumbersFrom, List.zipIdx_append]

mutual

theorem unevaluatedFrom_ofTree : ∀ (number : Nat) (parent : Option Nat) (depth : Nat) (t : Tree),
    (ofTree t).unevaluatedFrom number = leafNumbersFrom number (t.entriesFrom number parent depth)
  | _, _, _, .leaf _ => rfl
  | number, _, depth, .node _ parts =>
    unevaluatedIn_ofTrees (number + 1) number (depth + 1) parts

theorem unevaluatedIn_ofTrees : ∀ (number parent depth : Nat) (parts : List Tree),
    unevaluatedIn number (ofTrees parts) =
      leafNumbersFrom number (Tree.partEntries number parent depth parts)
  | _, _, _, [] => rfl
  | number, parent, depth, t :: rest => by
    rw [ofTrees, unevaluatedIn, Tree.partEntries, leafNumbersFrom_append, tree_ofTree,
      unevaluatedFrom_ofTree number (some parent) depth t, Tree.length_entriesFrom,
      unevaluatedIn_ofTrees (number + t.size) parent depth rest]

end

/-- **At first no leaf has been evaluated.** -/
theorem unevaluated_ofTree (t : Tree) : (ofTree t).unevaluated = t.leafNumbers :=
  unevaluatedFrom_ofTree 0 none 0 t

mutual

theorem leafCount_eq : ∀ p : Plan, p.leafCount = p.tree.leaves.length
  | leaf _ _ _ => rfl
  | node _ _ _ parts => leafCounts_eq parts

theorem leafCounts_eq : ∀ parts : List Plan,
    leafCounts parts = (Tree.leavesIn (trees parts)).length
  | [] => rfl
  | p :: rest => by
    rw [leafCounts, trees, Tree.leavesIn, List.length_append, leafCount_eq p, leafCounts_eq rest]

end

end Plan

/-! ## 5. Rounds -/

namespace Scheduler

open Plan

section Rounds

variable {m : Type → Type} [Monad m]

/-- The scheduler of a tree after its first update and so many rounds. -/
def rounds (judge : Judge m) (columns : List (List Span)) (t : Tree) :
    Nat → ExceptT Fault m Scheduler
  | 0 => liftFault ((ofTree t).update columns)
  | n + 1 => do
    let s ← rounds judge columns t n
    s.round judge columns

variable [MonadAttach m] {judge : Judge m} {columns : List (List Span)}

/-- **A scheduler on its way**, right after an update: so many rounds have taken one leaf each off
those that have not been evaluated. -/
structure Underway (columns : List (List Span)) (t : Tree) (n : Nat) (s : Scheduler) : Prop where
  tree : s.plan.tree = t
  sound : s.plan.Sound columns (· ∈ t.used)
  settled : s.plan.Settled
  coherent : s.Coherent
  numbers : s.plan.unevaluated.Sublist t.leafNumbers
  remaining : s.plan.unevaluated.length + n = t.leaves.length

theorem underway_first (columns : List (List Span)) {t : Tree} (ht : t.Formed) :
    ∃ s found, (ofTree t).update columns = .ok s ∧
      (Plan.ofTree t).refresh columns none = .ok (s.plan, found) ∧ Underway columns t 0 s := by
  have hsound : (Plan.ofTree t).Sound columns (· ∈ t.used) :=
    sound_ofTree ht fun l hl c hc => List.mem_flatMap.mpr ⟨l, hl, hc⟩
  obtain ⟨s, found, hok, hrefresh, hr, hc⟩ :=
    update_gives (s := ofTree t) hsound (coherent_ofTree t)
  have hall : s.plan.unevaluated = (Plan.ofTree t).unevaluated := hr.unevaluated 0
  refine ⟨s, found, hok, hrefresh, hr.tree.trans (tree_ofTree t), hr.sound, hr.settled, hc, ?_, ?_⟩
  · rw [hall, unevaluated_ofTree]
  · rw [hall, unevaluated, length_unevaluated_ofTree, Nat.add_zero]

/-- Leaves wait as long as the plan is not finished. -/
theorem Underway.pending_eq_nil_iff {t : Tree} {n : Nat} {s : Scheduler}
    (h : Underway columns t n s) : s.pending = [] ↔ s.plan.isDone = true := by
  rw [h.settled.isDone_iff 0, ← h.settled.map_snd_estimatesFrom 0, List.map_eq_nil_iff]
  constructor
  · intro hnone
    exact (hnone ▸ h.coherent.perm).nil_eq.symm
  · intro hnone
    exact (hnone ▸ h.coherent.perm : s.pending.Perm []).eq_nil

/-- **A plan is finished after as many rounds as the tree has leaves**, and not before. -/
theorem Underway.isDone_iff {t : Tree} {n : Nat} {s : Scheduler} (h : Underway columns t n s) :
    s.plan.isDone = true ↔ n = t.leaves.length := by
  have := h.remaining
  rw [h.settled.isDone_iff 0, ← unevaluated, ← List.length_eq_zero_iff]
  omega

/-- **A round that does not fail takes one leaf.** -/
theorem Underway.next {t : Tree} {n e i : Nat} {s s' s'' : Scheduler}
    {bound found found' : Option (List Table)} (h : Underway columns t n s)
    (heval : Evaluates judge columns (· ∈ t.used) e bound s.plan s'.plan found)
    (htakes : Takes (e, i) 0 s.plan s'.plan)
    (hr : Refreshed columns (· ∈ t.used) s'.plan s''.plan found') (hc : s''.Coherent) :
    Underway columns t (n + 1) s'' := by
  obtain ⟨front, back, hp, hp'⟩ := htakes.unevaluated
  have hnumbers := h.numbers
  have hremaining := h.remaining
  rw [unevaluated, hp] at hnumbers hremaining
  have hleft : s''.plan.unevaluated = front ++ back := (hr.unevaluated 0).trans hp'
  refine ⟨hr.tree.trans (heval.tree_eq.trans h.tree), hr.sound, hr.settled, hc, ?_, ?_⟩
  · exact hleft ▸ ((List.sublist_cons_self i back).append_left front).trans hnumbers
  · rw [hleft]
    simp only [List.length_append, List.length_cons] at hremaining ⊢
    omega

variable [LawfulMonad m] [LawfulMonadAttach m]

/-- **A round fails only when the plan is finished.** -/
theorem Underway.round_gives {t : Tree} {n : Nat} {s : Scheduler} (h : Underway columns t n s)
    {r : Except Fault Scheduler} (hr : Gives (s.round judge columns) r) :
    (r = .error .noLeafWaits ∧ s.plan.isDone = true) ∨
      ∃ s', r = .ok s' ∧ Underway columns t (n + 1) s' := by
  rcases Scheduler.round_gives h.sound h.coherent hr with
    ⟨he, hnone⟩ | ⟨_, _, _, s'', _, _, hok, heval, htakes, -, hr, hc⟩
  · exact .inl ⟨he, h.pending_eq_nil_iff.mp hnone⟩
  · exact .inr ⟨s'', hok, h.next heval htakes hr hc⟩

/-- **Rounds fail only beyond the number of leaves.** -/
theorem rounds_gives {t : Tree} (ht : t.Formed) : ∀ {n : Nat} {r : Except Fault Scheduler},
    Gives (rounds judge columns t n) r →
      (t.leaves.length < n ∧ r = .error .noLeafWaits) ∨
        ∃ s, r = .ok s ∧ Underway columns t n s
  | 0, r, h => by
    obtain ⟨s, _, hok, -, hs⟩ := underway_first columns ht
    rw [rounds, hok] at h
    exact .inr ⟨s, Gives.of_liftFault h, hs⟩
  | n + 1, r, h => by
    obtain ⟨e, he, rfl⟩ | ⟨s, hs, h⟩ := Gives.of_bind h
    · rcases rounds_gives ht he with ⟨hlt, he⟩ | ⟨_, he, -⟩
      · exact .inl ⟨by omega, he⟩
      · cases he
    · rcases rounds_gives ht hs with ⟨-, he⟩ | ⟨_, hok, hs⟩
      · cases he
      · cases hok
        rcases hs.round_gives h with ⟨he, hdone⟩ | hnext
        · have := hs.isDone_iff.mp hdone
          exact .inl ⟨by omega, he⟩
        · exact .inr hnext

/-! ## 6. A whole evaluation -/

/-- Rounds until the plan is finished, one for each leaf that is left, keep what a round keeps. -/
theorem finish_gives {t : Tree} {I : Plan → Prop}
    (hI : ∀ {s s' : Scheduler} {n : Nat}, I s.plan → Underway columns t n s →
      Gives (s.round judge columns) (.ok s') → I s'.plan) :
    ∀ {fuel n : Nat} {s : Scheduler} {r : Except Fault Scheduler}, I s.plan →
      Underway columns t n s → t.leaves.length ≤ n + fuel →
      Gives (s.finish judge columns fuel) r →
      ∃ s', r = .ok s' ∧ I s'.plan ∧ Underway columns t t.leaves.length s'
  | 0, n, s, r, hs, h, hfuel, hr => by
    have hn : n = t.leaves.length := by
      have := h.remaining
      omega
    rw [finish, if_pos (h.isDone_iff.mpr hn)] at hr
    exact ⟨s, Gives.of_pure hr, hs, hn ▸ h⟩
  | fuel + 1, n, s, r, hs, h, hfuel, hr => by
    rw [finish] at hr
    split at hr
    · next hdone => exact ⟨s, Gives.of_pure hr, hs, h.isDone_iff.mp hdone ▸ h⟩
    · next hdone =>
      obtain ⟨first, hfirst, hr⟩ := hr.first
      rcases h.round_gives hfirst with ⟨-, hd⟩ | ⟨s', rfl, hnext⟩
      · exact absurd hd hdone
      · exact finish_gives hI (hI hs h hfirst) hnext (by omega) (hr _ rfl)

/-- **An evaluation does not fail**: it ends with what a finished plan holds, and keeps what its
rounds keep. -/
theorem run_gives {t : Tree} (ht : t.Formed) {I : Plan → Prop}
    (hfirst : ∀ {p : Plan} {found : Option (List Table)},
      (Plan.ofTree t).refresh columns none = .ok (p, found) → I p)
    (hI : ∀ {s s' : Scheduler} {n : Nat}, I s.plan → Underway columns t n s →
      Gives (s.round judge columns) (.ok s') → I s'.plan)
    {r : Except Fault (List Table)} (h : Gives (run judge columns t) r) :
    ∃ s, r = .ok s.plan.held ∧ I s.plan ∧ Underway columns t t.leaves.length s := by
  obtain ⟨s, _, hok, hrefresh, hs⟩ := underway_first columns ht
  rw [run, hok] at h
  have h := Gives.of_liftFault_ok_bind h
  have hfuel : t.leaves.length ≤ 0 + s.plan.leafCount := by
    rw [leafCount_eq, hs.tree, Nat.zero_add]
  obtain ⟨last, hlast, h⟩ := h.first
  obtain ⟨s', rfl, hI', hunderway⟩ := finish_gives hI (hfirst hrefresh) hs hfuel hlast
  exact ⟨s', Gives.of_pure (h _ rfl), hI', hunderway⟩

end Rounds

end Scheduler

end Query

end TaggedText
