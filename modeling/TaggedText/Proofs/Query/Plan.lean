/-
# The states of a plan

`Plan.Sound` is what every state of a plan has in common, whatever order it was reached in: the
tables are over columns that the leaves use, a finished node has finished parts only, and **a node
that holds nothing has no finished part**.  `Plan.Settled` is what holds right after a plan was
brought up to date: every leaf that waits has an estimate, and a node is finished as soon as its
parts are.

What a visit makes of a plan does not depend on what waits, so it can be told without it
(`Plan.refresh`).  **Bringing a sound plan up to date does not fail**, and settles it: `refresh_ok`.
So a finished part always has something to fold into its parent.
-/
import TaggedText.Query.Scheduler
import TaggedText.Proofs.Query.Leaf
import TaggedText.Proofs.Query.Tree

namespace TaggedText.Query

namespace Plan

/-! ## 1. Plans and their trees -/

theorem trees_eq_map : ∀ parts : List Plan, trees parts = parts.map tree
  | [] => rfl
  | p :: rest => by rw [trees, trees_eq_map rest, List.map_cons]

mutual

theorem tree_ofTree : ∀ t : Tree, (ofTree t).tree = t
  | .leaf l => rfl
  | .node connective parts => by rw [ofTree, tree, trees_ofTrees parts]

theorem trees_ofTrees : ∀ parts : List Tree, trees (ofTrees parts) = parts
  | [] => rfl
  | t :: rest => by rw [ofTrees, trees, tree_ofTree t, trees_ofTrees rest]

end

theorem ofTrees_eq_map : ∀ parts : List Tree, ofTrees parts = parts.map ofTree
  | [] => rfl
  | t :: rest => by rw [ofTrees, ofTrees_eq_map rest, List.map_cons]

theorem isDone_ofTree (t : Tree) : (ofTree t).isDone = false := by cases t <;> rfl

/-! ## 2. Leaves by number -/

mutual

/-- The numbers of the leaves that have not been evaluated, the root having the given number. -/
def unevaluatedFrom (number : Nat) : Plan → List Nat
  | leaf _ _ none => [number]
  | leaf _ _ (some _) => []
  | node _ _ _ parts => unevaluatedIn (number + 1) parts

/-- The same for plans that follow each other. -/
def unevaluatedIn (number : Nat) : List Plan → List Nat
  | [] => []
  | p :: rest => p.unevaluatedFrom number ++ unevaluatedIn (number + p.tree.size) rest

end

mutual

/-- The leaves that have been estimated and not evaluated, each with its estimate and its number. -/
def estimatesFrom (number : Nat) : Plan → List Pending
  | leaf _ estimate none => estimate.toList.map fun e => (e, number)
  | leaf _ _ (some _) => []
  | node _ _ _ parts => estimatesIn (number + 1) parts

/-- The same for plans that follow each other. -/
def estimatesIn (number : Nat) : List Plan → List Pending
  | [] => []
  | p :: rest => p.estimatesFrom number ++ estimatesIn (number + p.tree.size) rest

end

/-- The numbers of the leaves that have not been evaluated. -/
def unevaluated (p : Plan) : List Nat := p.unevaluatedFrom 0

/-- The leaves that have been estimated and not evaluated, each with its estimate and its number. -/
def estimates (p : Plan) : List Pending := p.estimatesFrom 0

theorem unevaluatedIn_append : ∀ (number : Nat) (left right : List Plan),
    unevaluatedIn number (left ++ right) =
      unevaluatedIn number left ++ unevaluatedIn (number + Tree.sizes (trees left)) right
  | number, [], right => by simp [unevaluatedIn, trees, Tree.sizes]
  | number, p :: left, right => by
    simp only [List.cons_append, unevaluatedIn, unevaluatedIn_append _ left right, trees,
      Tree.sizes, List.append_assoc, Nat.add_assoc]

theorem estimatesIn_append : ∀ (number : Nat) (left right : List Plan),
    estimatesIn number (left ++ right) =
      estimatesIn number left ++ estimatesIn (number + Tree.sizes (trees left)) right
  | number, [], right => by simp [estimatesIn, trees, Tree.sizes]
  | number, p :: left, right => by
    simp only [List.cons_append, estimatesIn, estimatesIn_append _ left right, trees, Tree.sizes,
      List.append_assoc, Nat.add_assoc]

mutual

/-- **The numbers stand in increasing order**, from that of the root on. -/
theorem pairwise_unevaluatedFrom : ∀ (number : Nat) (p : Plan),
    (p.unevaluatedFrom number).Pairwise (· < ·) ∧
      ∀ i ∈ p.unevaluatedFrom number, number ≤ i ∧ i < number + p.tree.size
  | number, leaf l estimate none => by simp [unevaluatedFrom, tree, Tree.size]
  | number, leaf l estimate (some own) => by simp [unevaluatedFrom]
  | number, node connective done held parts => by
    obtain ⟨hpairwise, hbounds⟩ := pairwise_unevaluatedIn (number + 1) parts
    refine ⟨hpairwise, fun i hi => ?_⟩
    have := hbounds i hi
    simp only [tree, Tree.size]
    omega

theorem pairwise_unevaluatedIn : ∀ (number : Nat) (parts : List Plan),
    (unevaluatedIn number parts).Pairwise (· < ·) ∧
      ∀ i ∈ unevaluatedIn number parts, number ≤ i ∧ i < number + Tree.sizes (trees parts)
  | number, [] => by simp [unevaluatedIn]
  | number, p :: rest => by
    obtain ⟨hfirst, hfirst'⟩ := pairwise_unevaluatedFrom number p
    obtain ⟨hrest, hrest'⟩ := pairwise_unevaluatedIn (number + p.tree.size) rest
    simp only [unevaluatedIn, trees, Tree.sizes]
    refine ⟨List.pairwise_append.mpr ⟨hfirst, hrest, fun i hi j hj => ?_⟩, fun i hi => ?_⟩
    · have := hfirst' i hi
      have := hrest' j hj
      omega
    · rcases List.mem_append.mp hi with hi | hi
      · have := hfirst' i hi
        omega
      · have := hrest' i hi
        omega

end

mutual

/-- **A leaf is estimated once**: the numbers of the leaves with an estimate stand in order among
those of the leaves that have not been evaluated. -/
theorem sublist_map_snd_estimatesFrom : ∀ (number : Nat) (p : Plan),
    ((p.estimatesFrom number).map Prod.snd).Sublist (p.unevaluatedFrom number)
  | _, leaf _ none none => List.nil_sublist _
  | _, leaf _ (some _) none => List.Sublist.refl _
  | _, leaf _ _ (some _) => List.Sublist.refl _
  | number, node _ _ _ parts => sublist_map_snd_estimatesIn (number + 1) parts

theorem sublist_map_snd_estimatesIn : ∀ (number : Nat) (parts : List Plan),
    ((estimatesIn number parts).map Prod.snd).Sublist (unevaluatedIn number parts)
  | _, [] => List.Sublist.refl _
  | number, p :: rest => by
    rw [estimatesIn, List.map_append, unevaluatedIn]
    exact (sublist_map_snd_estimatesFrom number p).append (sublist_map_snd_estimatesIn _ rest)

end

theorem bounds_of_mem_estimatesFrom {number : Nat} {p : Plan} {a : Pending}
    (h : a ∈ p.estimatesFrom number) : number ≤ a.2 ∧ a.2 < number + p.tree.size :=
  (pairwise_unevaluatedFrom number p).2 _
    ((sublist_map_snd_estimatesFrom number p).subset (List.mem_map_of_mem h))

theorem bounds_of_mem_estimatesIn {number : Nat} {parts : List Plan} {a : Pending}
    (h : a ∈ estimatesIn number parts) :
    number ≤ a.2 ∧ a.2 < number + Tree.sizes (trees parts) :=
  (pairwise_unevaluatedIn number parts).2 _
    ((sublist_map_snd_estimatesIn number parts).subset (List.mem_map_of_mem h))

theorem nodup_estimatesFrom (number : Nat) (p : Plan) : (p.estimatesFrom number).Nodup := by
  have hnumbers := (pairwise_unevaluatedFrom number p).1.sublist
    (sublist_map_snd_estimatesFrom number p)
  exact (List.pairwise_map.mp hnumbers).imp fun hlt heq => absurd hlt (by simp [heq])

/-! ## 3. Sound and settled plans -/

variable {columns : List (List Span)} {known : Nat → Prop}

/-- **What every state of a plan has in common.** -/
inductive Sound (columns : List (List Span)) (known : Nat → Prop) : Plan → Prop
  | leaf {l : Leaf} {estimate : Option Nat} {own : Option Table}
      (arguments : l.arguments ≠ [])
      (uses : ∀ c ∈ l.columns, known c)
      (rows : ∀ t ∈ own, t.columns = l.columns ∧ t.Over known (InColumn columns)) :
      Sound columns known (.leaf l estimate own)
  | node {connective : Connective} {done : Bool} {held : List Table} {parts : List Plan}
      (nonempty : parts ≠ [])
      (proper : Table.Proper known (InColumn columns) held)
      -- a finished node has finished parts only
      (finished : done = true → ∀ p ∈ parts, p.isDone = true)
      -- a node with a finished part holds something
      (begun : ∀ p ∈ parts, p.isDone = true → held ≠ [])
      (sound : ∀ p ∈ parts, Sound columns known p) :
      Sound columns known (.node connective done held parts)

/-- **What holds right after a plan was brought up to date.** -/
inductive Settled : Plan → Prop
  | leaf {l : Leaf} {estimate : Option Nat} {own : Option Table}
      (estimated : own = none → estimate.isSome = true) : Settled (.leaf l estimate own)
  | node {connective : Connective} {done : Bool} {held : List Table} {parts : List Plan}
      (finished : done = true ↔ ∀ p ∈ parts, p.isDone = true)
      (settled : ∀ p ∈ parts, Settled p) : Settled (.node connective done held parts)

theorem Sound.of_mem {connective : Connective} {done : Bool} {held : List Table}
    {parts : List Plan} (h : Sound columns known (.node connective done held parts)) {q : Plan}
    (hq : q ∈ parts) : q.Sound columns known := by
  cases h with
  | node _ _ _ _ sound => exact sound q hq

theorem Settled.of_mem {connective : Connective} {done : Bool} {held : List Table}
    {parts : List Plan} (h : Settled (.node connective done held parts)) {q : Plan}
    (hq : q ∈ parts) : q.Settled := by
  cases h with
  | node _ settled => exact settled q hq

/-- A plan of which nothing has been computed is sound. -/
theorem sound_ofTree {t : Tree} (h : t.Formed)
    (hknown : ∀ l ∈ t.leaves, ∀ c ∈ l.arguments, known c) : (ofTree t).Sound columns known := by
  induction h with
  | leaf arguments =>
    exact .leaf arguments
      (fun c hc => hknown _ (by simp [Tree.leaves]) c (Leaf.mem_columns.mp hc)) (by simp)
  | @node connective parts nonempty _ ih =>
    have hparts : ∀ p ∈ ofTrees parts, ∃ t ∈ parts, ofTree t = p := by
      simp [ofTrees_eq_map]
    refine .node (by simpa [ofTrees_eq_map] using nonempty) .nil (by simp) ?_ ?_
    · intro p hp hdone
      obtain ⟨t, -, rfl⟩ := hparts p hp
      simp [isDone_ofTree] at hdone
    · intro p hp
      obtain ⟨t, ht, rfl⟩ := hparts p hp
      exact ih t ht fun l hl => hknown l (Tree.mem_leavesIn.mpr ⟨t, ht, hl⟩)

/-- A finished node holds something. -/
theorem Sound.held_ne_nil {p : Plan} (h : p.Sound columns known) (hdone : p.isDone = true) :
    p.held ≠ [] := by
  cases h with
  | @leaf l estimate own =>
    cases own with
    | none => simp [isDone] at hdone
    | some own => simp [held]
  | node nonempty _ finished begun _ =>
    obtain ⟨p, hp⟩ := List.exists_mem_of_ne_nil _ nonempty
    exact begun p hp (finished hdone p hp)

theorem Sound.proper_held {p : Plan} (h : p.Sound columns known) :
    Table.Proper known (InColumn columns) p.held := by
  cases h with
  | @leaf l estimate own _ _ hown =>
    cases own with
    | none => exact .nil
    | some own => exact .singleton (hown own rfl).2
  | node _ proper => exact proper

/-- **A finished plan is settled.** -/
theorem Sound.settled_of_isDone {p : Plan} (h : p.Sound columns known) :
    p.isDone = true → p.Settled := by
  induction h with
  | @leaf l estimate own => exact fun hdone => .leaf fun hnone => by simp [isDone, hnone] at hdone
  | node _ _ finished _ _ ih =>
    exact fun hdone => .node ⟨fun _ => finished hdone, fun _ => hdone⟩
      fun p hp => ih p hp (finished hdone p hp)

/-- **A settled plan is finished exactly when all its leaves have been evaluated.** -/
theorem Settled.isDone_iff {p : Plan} (h : p.Settled) :
    ∀ number, p.isDone = true ↔ p.unevaluatedFrom number = [] := by
  induction h with
  | @leaf l estimate own => cases own <;> simp [isDone, unevaluatedFrom]
  | @node connective done held parts finished _ ih =>
    have hparts : ∀ (rest : List Plan) (number : Nat), (∀ p ∈ rest, p ∈ parts) →
        ((∀ p ∈ rest, p.isDone = true) ↔ unevaluatedIn number rest = []) := by
      intro rest
      induction rest with
      | nil => simp [unevaluatedIn]
      | cons p rest ihrest =>
        intro number hsub
        obtain ⟨hp, hsub⟩ := List.forall_mem_cons.mp hsub
        rw [List.forall_mem_cons, unevaluatedIn, List.append_eq_nil_iff, ih p hp number,
          ihrest _ hsub]
    exact fun number => finished.trans (hparts parts (number + 1) fun p hp => hp)

mutual

/-- **In a settled plan exactly the leaves that have not been evaluated have an estimate that
counts.** -/
theorem Settled.map_snd_estimatesFrom : ∀ {p : Plan}, p.Settled → ∀ number : Nat,
    (p.estimatesFrom number).map Prod.snd = p.unevaluatedFrom number
  | .leaf l estimate none, h, number => by
    cases h with
    | leaf estimated =>
      obtain ⟨e, rfl⟩ := Option.isSome_iff_exists.mp (estimated rfl)
      rfl
  | .leaf l estimate (some own), _, number => rfl
  | .node connective done held parts, h, number => by
    cases h with
    | node _ settled => exact map_snd_estimatesIn settled (number + 1)

theorem map_snd_estimatesIn : ∀ {parts : List Plan}, (∀ p ∈ parts, p.Settled) →
    ∀ number : Nat, (estimatesIn number parts).map Prod.snd = unevaluatedIn number parts
  | [], _, number => rfl
  | p :: rest, h, number => by
    obtain ⟨hp, hrest⟩ := List.forall_mem_cons.mp h
    rw [estimatesIn, List.map_append, Settled.map_snd_estimatesFrom hp number,
      map_snd_estimatesIn hrest, unevaluatedIn]

end

/-! ## 4. One part of a node changes -/

theorem forall_mem_replace {P : Plan → Prop} {before after : List Plan} {p p' : Plan}
    (h : ∀ q ∈ before ++ p :: after, P q) (hp' : P p') : ∀ q ∈ before ++ p' :: after, P q := by
  simp only [List.forall_mem_append, List.forall_mem_cons] at h ⊢
  exact ⟨h.1, hp', h.2.2⟩

/-- **A sound part takes the place of another one.**  What the node holds may change with it. -/
theorem Sound.replace {connective : Connective} {done : Bool} {held held' : List Table}
    {before after : List Plan} {p p' : Plan}
    (h : Sound columns known (.node connective done held (before ++ p :: after)))
    (hp' : p'.Sound columns known) (hheld : Table.Proper known (InColumn columns) held')
    (hdone : p.isDone = true → p'.isDone = true)
    (hbegun : held ≠ [] ∨ p'.isDone = true → held' ≠ []) :
    Sound columns known (.node connective done held' (before ++ p' :: after)) := by
  cases h with
  | node nonempty proper finished begun sound =>
    refine .node (by simp) hheld ?_ ?_ (forall_mem_replace sound hp')
    · exact fun hd => forall_mem_replace (finished hd) (hdone (finished hd p (by simp)))
    · refine forall_mem_replace (P := fun q => q.isDone = true → held' ≠ []) (p := p) ?_
        fun hd => hbegun (.inr hd)
      exact fun q hq hd => hbegun (.inl (begun q hq hd))

/-! ## 5. Bringing a plan up to date -/

/-- **Folding a finished part into its parent does not fail**: there is always something to
fold. -/
theorem absorb_ok (connective : Connective) {held found : List Table}
    (hheld : Table.Proper known (InColumn columns) held)
    (hfound : Table.Proper known (InColumn columns) found) (hne : found ≠ []) :
    ∃ held', absorb connective held found = .ok held' ∧
      Table.Proper known (InColumn columns) held' ∧ held' ≠ [] := by
  cases connective with
  | disjunction =>
    exact ⟨_, rfl, .union hfound.isOver hheld, Table.union_ne_nil_of_right hne⟩
  | conjunction =>
    by_cases hempty : held = []
    · exact ⟨found, by simp [absorb, hempty], hfound, hne⟩
    · obtain ⟨joined, hok, hproper, hjoined, -⟩ := Table.joinAll_spec hheld.isOver hfound.isOver
      exact ⟨joined, by simpa [absorb, hempty, hne] using hok, hproper, hjoined hempty hne⟩

mutual

/-- What a visit makes of a plan, whatever waits: the plan with new estimates, and the tables of the
node if it has just been finished. -/
def refresh (columns : List (List Span)) (bound : Option (List Table)) :
    Plan → Except Fault (Plan × Option (List Table))
  | leaf l _ none => .ok (leaf l (some (l.estimate columns bound)) none, none)
  | leaf l estimate (some own) => .ok (leaf l estimate (some own), none)
  | node connective true held parts => .ok (node connective true held parts, none)
  | node connective false held parts =>
    (refreshParts columns (connective = .conjunction ∧ !held.isEmpty) bound connective held
        parts).map fun (held, parts) =>
      if parts.all isDone then (node connective true held parts, some held)
      else (node connective false held parts, none)

/-- The same for the parts of a node. -/
def refreshParts (columns : List (List Span)) (binds : Bool) (bound : Option (List Table))
    (connective : Connective) (held : List Table) :
    List Plan → Except Fault (List Table × List Plan)
  | [] => .ok (held, [])
  | p :: rest =>
    (refresh columns (if binds then some held else bound) p).bind fun (p, found) =>
      (absorbed connective held found).bind fun held =>
        (refreshParts columns binds bound connective held rest).map fun (held, rest) =>
          (held, p :: rest)

end

/-- What a plan has found when it is brought up to date: its tables if it has been finished just
now. -/
inductive Finishes (p p' : Plan) : Option (List Table) → Prop
  | unchanged (same : p'.isDone = p.isDone) : Finishes p p' none
  | now (before : p.isDone = false) (now : p'.isDone = true) : Finishes p p' (some p'.held)

/-- A plan brought up to date: the same tree with the same leaves evaluated. -/
structure Refreshed (columns : List (List Span)) (known : Nat → Prop) (p p' : Plan)
    (found : Option (List Table)) : Prop where
  tree : p'.tree = p.tree
  unevaluated : ∀ number, p'.unevaluatedFrom number = p.unevaluatedFrom number
  sound : p'.Sound columns known
  settled : p'.Settled
  finishes : Finishes p p' found

/-- The next part is folded into its parent. -/
theorem Refreshed.absorbed_ok {connective : Connective} {held : List Table}
    {before after : List Plan} {p p' : Plan} {found : Option (List Table)}
    (hr : Refreshed columns known p p' found)
    (h : Sound columns known (.node connective false held (before ++ p :: after))) :
    ∃ held', absorbed connective held found = .ok held' ∧
      Sound columns known (.node connective false held' (before ++ p' :: after)) := by
  cases h' : h with
  | node nonempty proper finished begun sound =>
    cases hr.finishes with
    | unchanged same =>
      refine ⟨held, rfl, h.replace hr.sound proper (by simp [same]) ?_⟩
      rintro (hne | hdone)
      · exact hne
      · exact begun p (by simp) (same ▸ hdone)
    | now before now =>
      obtain ⟨held', hok, hproper, hne⟩ :=
        absorb_ok connective proper hr.sound.proper_held (hr.sound.held_ne_nil now)
      exact ⟨held', hok, h.replace hr.sound hproper (fun _ => now) fun _ => hne⟩

mutual

/-- **Bringing a sound plan up to date does not fail, and settles it.** -/
theorem refresh_ok : ∀ {p : Plan} (bound : Option (List Table)), p.Sound columns known →
    ∃ p' found, p.refresh columns bound = .ok (p', found) ∧ Refreshed columns known p p' found
  | leaf l estimate none, bound, h => by
    refine ⟨_, _, rfl, rfl, fun number => rfl, ?_, .leaf fun _ => rfl, .unchanged rfl⟩
    cases h with
    | leaf arguments uses => exact .leaf arguments uses (by simp)
  | leaf l estimate (some own), bound, h =>
    ⟨_, _, rfl, rfl, fun _ => rfl, h, h.settled_of_isDone rfl, .unchanged rfl⟩
  | node connective true held parts, bound, h =>
    ⟨_, _, rfl, rfl, fun _ => rfl, h, h.settled_of_isDone rfl, .unchanged rfl⟩
  | node connective false held parts, bound, h => by
    obtain ⟨held', parts', hok, htrees, hunevaluated, hsound, hsettled⟩ :=
      refreshParts_ok (connective = .conjunction ∧ !held.isEmpty) bound [] h
    rw [refresh, hok]
    by_cases hall : parts'.all isDone = true
    · have hall' : ∀ p ∈ parts', p.isDone = true := List.all_eq_true.mp hall
      refine ⟨node connective true held' parts', some held', by simp [Except.map, hall], ?_,
        fun number => hunevaluated (number + 1), ?_, .node ⟨fun _ => hall', fun _ => rfl⟩ hsettled,
        .now rfl rfl⟩
      · rw [tree, tree, htrees]
      · cases hsound with
        | node nonempty proper _ begun sound =>
          exact .node nonempty proper (fun _ => hall') begun sound
    · refine ⟨node connective false held' parts', none, by simp [Except.map, hall], ?_,
        fun number => hunevaluated (number + 1), hsound, .node ?_ hsettled, .unchanged rfl⟩
      · rw [tree, tree, htrees]
      · exact ⟨fun hf => by simp at hf, fun hp => absurd (List.all_eq_true.mpr hp) hall⟩

/-- The parts of a node behind those that have been brought up to date already. -/
theorem refreshParts_ok : ∀ {parts : List Plan} (binds : Bool) {connective : Connective}
    {held : List Table} (bound : Option (List Table)) (before : List Plan),
    Sound columns known (.node connective false held (before ++ parts)) →
    ∃ held' parts', refreshParts columns binds bound connective held parts = .ok (held', parts') ∧
      trees parts' = trees parts ∧
      (∀ number, unevaluatedIn number parts' = unevaluatedIn number parts) ∧
      Sound columns known (.node connective false held' (before ++ parts')) ∧
      ∀ p ∈ parts', p.Settled
  | [], binds, connective, held, bound, before, h =>
    ⟨held, [], rfl, rfl, fun _ => rfl, h, by simp⟩
  | p :: rest, binds, connective, held, bound, before, h => by
    obtain ⟨p', found, hok, hr⟩ :=
      refresh_ok (if binds then some held else bound) (h.of_mem (q := p) (by simp))
    obtain ⟨held', habsorbed, hsound⟩ := hr.absorbed_ok h
    obtain ⟨held'', rest', hrest, htrees, hunevaluated, hsound', hsettled⟩ :=
      refreshParts_ok binds bound (before ++ [p']) (by simpa using hsound)
    refine ⟨held'', p' :: rest', ?_, ?_, fun number => ?_, by simpa using hsound', ?_⟩
    · simp [refreshParts, hok, habsorbed, hrest, Except.bind, Except.map]
    · rw [trees, trees, hr.tree, htrees]
    · rw [unevaluatedIn, unevaluatedIn, hr.unevaluated, hr.tree, hunevaluated]
    · exact List.forall_mem_cons.mpr ⟨hr.settled, hsettled⟩

end

/-- **What bringing the next part up to date does**, with what the node holds before and after
it. -/
theorem refreshParts_cons_inv {binds : Bool} {bound : Option (List Table)}
    {connective : Connective} {held held'' : List Table} {before rest parts' : List Plan} {p : Plan}
    (hs : Sound columns known (.node connective false held (before ++ p :: rest)))
    (h : refreshParts columns binds bound connective held (p :: rest) = .ok (held'', parts')) :
    ∃ p' found held' rest', parts' = p' :: rest' ∧
      p.refresh columns (if binds then some held else bound) = .ok (p', found) ∧
      Refreshed columns known p p' found ∧ absorbed connective held found = .ok held' ∧
      Sound columns known (.node connective false held' (before ++ p' :: rest)) ∧
      refreshParts columns binds bound connective held' rest = .ok (held'', rest') := by
  obtain ⟨p', found, hok, hr⟩ :=
    refresh_ok (if binds then some held else bound) (hs.of_mem (q := p) (by simp))
  obtain ⟨held', habsorbed, hs'⟩ := hr.absorbed_ok hs
  rw [refreshParts, hok] at h
  obtain ⟨_, hmiddle, h⟩ := exists_of_bind_ok (x := absorbed connective held found) h
  cases habsorbed.symm.trans hmiddle
  obtain ⟨⟨_, rest'⟩, hrest, h⟩ := exists_of_map_ok h
  cases h
  exact ⟨p', found, held', rest', rfl, hok, hr, habsorbed, hs', hrest⟩

end Plan

end TaggedText.Query
