/-
# What a step does

A step evaluates one leaf and leaves the rest of the tree as it is: `Evaluates` says how the tables
of the leaf's parent change with it, and which tables bind the leaf.  A leaf is looked up by its
number, and whether there is one depends on the entry that the step takes: **an entry that the plan
bears out is that of a leaf which has not been evaluated** (`evaluateAt_gives`).

So a step of a scheduler whose entries agree with its plan is an evaluation of the leaf that its first
entry names, and its entries agree with its plan again (`Scheduler.step_gives`).  It keeps the plan
sound, and the update behind it does not fail (`Scheduler.round_gives`).
-/
import TaggedText.Proofs.Query.Scheduler

namespace TaggedText.Query

namespace Plan

variable {m : Type → Type} [Monad m] [MonadAttach m]
variable {judge : Judge m} {columns : List (List Span)} {known : Nat → Prop}

/-! ## 1. Evaluating one leaf -/

/-- **One leaf with the given estimate is evaluated** against the tables of the nearest conjunction
above it that holds some, and what it finds is put into its parent. -/
inductive Evaluates (judge : Judge m) (columns : List (List Span)) (known : Nat → Prop)
    (estimate : Nat) : Option (List Table) → Plan → Plan → Option (List Table) → Prop
  | leaf {bound : Option (List Table)} {l : Leaf} {made : List Table} {own : Table}
      (evaluated : l.Evaluated judge columns known bound made own) :
      Evaluates judge columns known estimate bound (.leaf l (some estimate) none)
        (.leaf l (some own.rows.length) (some own)) (some made)
  | node {bound : Option (List Table)} {connective : Connective} {done : Bool}
      {held : List Table} {before after : List Plan} {p p' : Plan} {found : Option (List Table)}
      (part : Evaluates judge columns known estimate (boundBelow connective held bound) p p'
        found) :
      Evaluates judge columns known estimate bound
        (.node connective done held (before ++ p :: after))
        (.node connective done (delivered connective held found) (before ++ p' :: after)) none

section Evaluates

variable {estimate : Nat} {bound found : Option (List Table)} {p p' : Plan}

theorem trees_append (left right : List Plan) :
    trees (left ++ right) = trees left ++ trees right := by
  simp [trees_eq_map]

theorem Evaluates.tree_eq (h : Evaluates judge columns known estimate bound p p' found) :
    p'.tree = p.tree := by
  induction h with
  | leaf _ => rfl
  | node _ ih => simp only [tree, trees_append, trees, ih]

/-- A leaf that has been evaluated is finished, and leaves something for its parent; no inner node
is finished by a step. -/
theorem Evaluates.finishes (h : Evaluates judge columns known estimate bound p p' found) :
    (found = none ∧ p'.isDone = p.isDone) ∨
      ∃ made, found = some made ∧ p.isDone = false ∧ p'.isDone = true ∧ made ≠ [] ∧
        Table.Proper known (InColumn columns) made := by
  cases h with
  | leaf evaluated =>
    exact .inr ⟨_, rfl, rfl, rfl, evaluated.nonempty, evaluated.proper⟩
  | node _ => exact .inl ⟨rfl, rfl⟩

theorem proper_deliver {connective : Connective} {held made : List Table}
    (hheld : Table.Proper known (InColumn columns) held)
    (hmade : Table.Proper known (InColumn columns) made) :
    Table.Proper known (InColumn columns) (deliver connective held made) := by
  cases connective with
  | conjunction => exact hmade
  | disjunction => exact .union hmade.isOver hheld

theorem deliver_ne_nil {connective : Connective} {held made : List Table} (h : made ≠ []) :
    deliver connective held made ≠ [] := by
  cases connective with
  | conjunction => exact h
  | disjunction => exact Table.union_ne_nil_of_right h

/-- **A step keeps a plan sound.** -/
theorem Evaluates.sound (h : Evaluates judge columns known estimate bound p p' found) :
    p.Sound columns known → p'.Sound columns known := by
  induction h with
  | leaf evaluated =>
    rintro ⟨arguments, uses, -⟩
    exact .leaf arguments uses (by simpa using ⟨evaluated.own_columns, evaluated.own_over⟩)
  | @node bound connective done held before after p p' found part ih =>
    intro hs
    cases h' : hs with
    | node nonempty proper _ begun sound =>
      have hp' := ih (sound p (by simp))
      rcases part.finishes with ⟨rfl, hsame⟩ | ⟨made, rfl, -, hnow, hne, hmade⟩
      · refine hs.replace hp' proper (by simp [hsame]) ?_
        rintro (hne | hdone)
        · exact hne
        · exact begun p (by simp) (hsame ▸ hdone)
      · exact hs.replace hp' (proper_deliver proper hmade) (fun _ => hnow)
          fun _ => deliver_ne_nil hne

/-- **A leaf is taken off** the leaves that have not been evaluated, and its entry off the
estimates; the others stay as they are. -/
structure Takes (a : Pending) (number : Nat) (p p' : Plan) : Prop where
  unevaluated : ∃ before after, p.unevaluatedFrom number = before ++ a.2 :: after ∧
    p'.unevaluatedFrom number = before ++ after
  estimates : ∃ before after, p.estimatesFrom number = before ++ a :: after ∧
    p'.estimatesFrom number = before ++ after

/-- **No other leaf is missing afterwards.** -/
theorem Takes.unevaluated_eq_erase {a : Pending} (h : Takes a 0 p p') :
    p'.unevaluated = p.unevaluated.erase a.2 := by
  obtain ⟨before, after, hp, hp'⟩ := h.unevaluated
  have hnodup : (before ++ a.2 :: after).Nodup :=
    hp ▸ nodup_of_pairwise_lt (pairwise_unevaluatedFrom 0 p).1
  have hnot : a.2 ∉ before := fun hi =>
    (List.nodup_append.mp hnodup).2.2 _ hi _ List.mem_cons_self rfl
  rw [Plan.unevaluated, Plan.unevaluated, hp, hp', List.erase_append_right _ hnot,
    List.erase_cons_head]

/-- What is taken off a part of a node is taken off the node. -/
theorem Takes.node {a : Pending} {number : Nat} {connective : Connective} {done : Bool}
    {held held' : List Table} {before after : List Plan}
    (h : Takes a (number + 1 + Tree.sizes (trees before)) p p') (htree : p'.tree = p.tree) :
    Takes a number (.node connective done held (before ++ p :: after))
      (.node connective done held' (before ++ p' :: after)) where
  unevaluated := by
    obtain ⟨front, back, hp, hp'⟩ := h.unevaluated
    refine ⟨unevaluatedIn (number + 1) before ++ front, back ++ unevaluatedIn
      (number + 1 + Tree.sizes (trees before) + p.tree.size) after, ?_, ?_⟩
    · simp only [unevaluatedFrom, unevaluatedIn_append, unevaluatedIn, hp, List.append_assoc,
        List.cons_append]
    · simp only [unevaluatedFrom, unevaluatedIn_append, unevaluatedIn, hp', htree,
        List.append_assoc]
  estimates := by
    obtain ⟨front, back, hp, hp'⟩ := h.estimates
    refine ⟨estimatesIn (number + 1) before ++ front, back ++ estimatesIn
      (number + 1 + Tree.sizes (trees before) + p.tree.size) after, ?_, ?_⟩
    · simp only [estimatesFrom, estimatesIn_append, estimatesIn, hp, List.append_assoc,
        List.cons_append]
    · simp only [estimatesFrom, estimatesIn_append, estimatesIn, hp', htree, List.append_assoc]

end Evaluates

/-! ## 2. The leaf that a step evaluates -/

section Gives

variable [LawfulMonad m] [LawfulMonadAttach m]

/-- Tables that may bind a leaf: at least one, over known columns. -/
def Binding (columns : List (List Span)) (known : Nat → Prop) (bound : Option (List Table)) :
    Prop :=
  ∀ tables ∈ bound, tables ≠ [] ∧ ∀ t ∈ tables, t.Over known (InColumn columns)

theorem Binding.below {bound : Option (List Table)} (h : Binding columns known bound)
    {connective : Connective} {held : List Table}
    (hheld : Table.Proper known (InColumn columns) held) :
    Binding columns known (boundBelow connective held bound) := by
  rw [boundBelow]
  split
  · next hbinds =>
    rintro tables ⟨⟩
    exact ⟨by simpa using hbinds.2, hheld.isOver⟩
  · exact h

mutual

/-- **An entry that the plan bears out names a leaf that has not been evaluated**, and evaluating it
does not fail. -/
theorem evaluateAt_gives {e i : Nat} : ∀ {p : Plan} {bound : Option (List Table)} {number : Nat}
    {r : Except Fault (Plan × Option (List Table))},
    p.Sound columns known → Binding columns known bound → (e, i) ∈ p.estimatesFrom number →
    Gives (p.evaluateAt judge columns i bound number) r →
      ∃ p' found, r = .ok (p', found) ∧ Evaluates judge columns known e bound p p' found ∧
        Takes (e, i) number p p'
  | leaf l estimate (some own), _, _, _, _, _, hentry, _ => by
    cases hentry
  | leaf l estimate none, bound, number, r, hs, hb, hentry, h => by
    simp only [estimatesFrom, List.mem_map, Option.mem_toList, Prod.mk.injEq] at hentry
    obtain ⟨_, rfl, rfl, rfl⟩ := hentry
    cases hs with
    | leaf arguments uses =>
      rw [evaluateAt] at h
      obtain ⟨first, hfirst, h⟩ := h.first
      obtain ⟨made, own, rfl, hevaluated⟩ := Leaf.evaluate_gives arguments uses hb hfirst
      exact ⟨_, _, Gives.of_pure (h _ rfl), .leaf hevaluated, ⟨[], [], rfl, rfl⟩,
        ⟨[], [], rfl, rfl⟩⟩
  | node connective done held parts, bound, number, r, hs, hb, hentry, h => by
    have hbelow : number + 1 ≤ i := (bounds_of_mem_estimatesIn hentry).1
    rw [evaluateAt, if_neg (by omega)] at h
    cases hs with
    | node _ proper _ _ sound =>
      obtain ⟨first, hfirst, h⟩ := h.first
      obtain ⟨before, p, p', after, found, rfl, rfl, heval, htakes⟩ :=
        evaluateIn_gives sound (hb.below proper) hentry hfirst
      exact ⟨_, _, Gives.of_pure (h _ rfl), .node heval, htakes.node heval.tree_eq⟩

theorem evaluateIn_gives {e i : Nat} : ∀ {parts : List Plan} {bound : Option (List Table)}
    {number : Nat} {r : Except Fault (List Plan × Option (List Table))},
    (∀ p ∈ parts, p.Sound columns known) → Binding columns known bound →
    (e, i) ∈ estimatesIn number parts →
    Gives (evaluateIn judge columns i bound number parts) r →
      ∃ before p p' after found, parts = before ++ p :: after ∧
        r = .ok (before ++ p' :: after, found) ∧ Evaluates judge columns known e bound p p' found ∧
        Takes (e, i) (number + Tree.sizes (trees before)) p p'
  | [], _, _, _, _, _, hentry, _ => by
    cases hentry
  | p :: rest, bound, number, r, hs, hb, hentry, h => by
    obtain ⟨hp, hrest⟩ := List.forall_mem_cons.mp hs
    rw [estimatesIn, List.mem_append] at hentry
    rw [evaluateIn] at h
    split at h
    · next hlt =>
      -- the parts behind the first one have larger numbers
      have hhere : (e, i) ∈ p.estimatesFrom number := hentry.resolve_right fun hlater => by
        have := (bounds_of_mem_estimatesIn hlater).1
        omega
      obtain ⟨first, hfirst, h⟩ := h.first
      obtain ⟨p', found, rfl, heval, htakes⟩ := evaluateAt_gives hp hb hhere hfirst
      exact ⟨[], p, p', rest, found, rfl, Gives.of_pure (h _ rfl), heval, htakes⟩
    · next hnot =>
      have hlater : (e, i) ∈ estimatesIn (number + p.tree.size) rest :=
        hentry.resolve_left fun hhere => hnot (bounds_of_mem_estimatesFrom hhere).2
      obtain ⟨first, hfirst, h⟩ := h.first
      obtain ⟨before, q, q', after, found, rfl, rfl, heval, htakes⟩ :=
        evaluateIn_gives hrest hb hlater hfirst
      refine ⟨p :: before, q, q', after, found, rfl, Gives.of_pure (h _ rfl), heval, ?_⟩
      rwa [trees, Tree.sizes, ← Nat.add_assoc]

end

end Gives

end Plan

/-! ## 3. Steps and rounds -/

namespace Scheduler

open Plan

variable {m : Type → Type} [Monad m] [LawfulMonad m] [MonadAttach m] [LawfulMonadAttach m]
variable {judge : Judge m} {columns : List (List Span)} {known : Nat → Prop} {s : Scheduler}

/-- The entries agree with the plan when the first of them is gone and its leaf taken off. -/
theorem Coherent.take {a : Pending} {pending : List Pending} {p' : Plan} (hc : s.Coherent)
    (hfirst : s.pending = a :: pending) (h : Takes a 0 s.plan p') : Coherent ⟨p', pending⟩ := by
  obtain ⟨before, after, hp, hp'⟩ := h.estimates
  have hrest : pending.Perm (before ++ after) := by
    have hall : (a :: pending).Perm (before ++ a :: after) := by
      rw [← hfirst, ← hp]
      exact hc.perm
    exact (hall.trans List.perm_middle).cons_inv
  refine ⟨?_, fun b => ?_⟩
  · have horder := hc.order
    rw [hfirst] at horder
    exact horder.of_cons
  · rw [Plan.estimates, hp']
    exact hrest.mem_iff

/-- **A step evaluates the leaf that the first entry names**; it fails only when no leaf waits. -/
theorem step_gives (hs : s.plan.Sound columns known) (hc : s.Coherent)
    {r : Except Fault Scheduler} (h : Gives (s.step judge columns) r) :
    (r = .error .noLeafWaits ∧ s.pending = []) ∨
      ∃ e i s' found, r = .ok s' ∧ s.pending = (e, i) :: s'.pending ∧
        Evaluates judge columns known e none s.plan s'.plan found ∧
        Takes (e, i) 0 s.plan s'.plan ∧ s'.Coherent := by
  rw [step] at h
  split at h
  · next hnone => exact .inl ⟨Gives.of_throw h, hnone⟩
  · next e i rest hpending =>
    have hentry : (e, i) ∈ s.plan.estimates := (hc.mem _).mp (hpending ▸ List.mem_cons_self)
    have hbinding : Binding columns known none := by simp [Binding]
    obtain ⟨first, hfirst, h⟩ := h.first
    obtain ⟨p', found, rfl, heval, htakes⟩ := evaluateAt_gives hs hbinding hentry hfirst
    exact .inr ⟨e, i, ⟨p', rest⟩, found, Gives.of_pure (h _ rfl), hpending, heval, htakes,
      hc.take hpending htakes⟩

/-- **A round evaluates one leaf and settles the plan**; it fails only when no leaf waits. -/
theorem round_gives (hs : s.plan.Sound columns known) (hc : s.Coherent)
    {r : Except Fault Scheduler} (h : Gives (s.round judge columns) r) :
    (r = .error .noLeafWaits ∧ s.pending = []) ∨
      ∃ e i, ∃ s' s'' : Scheduler, ∃ found found', r = .ok s'' ∧
        Evaluates judge columns known e none s.plan s'.plan found ∧
        Takes (e, i) 0 s.plan s'.plan ∧
        s'.plan.refresh columns none = .ok (s''.plan, found') ∧
        Refreshed columns known s'.plan s''.plan found' ∧ s''.Coherent := by
  obtain ⟨_, he, rfl⟩ | ⟨s', hs', h⟩ := Gives.of_bind h
  · rcases step_gives hs hc he with ⟨he, hnone⟩ | ⟨_, _, _, _, he, -⟩
    · exact .inl ⟨he, hnone⟩
    · cases he
  · rcases step_gives hs hc hs' with ⟨he, -⟩ | ⟨e, i, _, found, hok, -, heval, htakes, hc'⟩
    · cases he
    · cases hok
      obtain ⟨s'', found', hupdate, hrefresh, hr, hc''⟩ := update_gives (heval.sound hs) hc'
      rw [hupdate] at h
      exact .inr ⟨e, i, s', s'', found, found', Gives.of_liftFault h, heval, htakes, hrefresh, hr,
        hc''⟩

end Scheduler

end TaggedText.Query
