/-
# What a plan holds

For predicates without effects a choice makes every leaf true or false, and so every node.  At every
moment of an evaluation, **what a node holds is what its finished parts say together**
(`holds_what_is_finished`): all of them under "and", some of them under "or".  What is left out is
only what a conjunction above has ruled out already, since leaves are evaluated against its rows.

`Plan.Exact` is this of all nodes at once, for a plan below conjunctions of which the condition
`above` is known.  Finishing a part makes this condition stronger for the parts beside it, which
does no harm (`Exact.mono`), so it is kept by evaluating a leaf (`Evaluates.exact`) and by folding
finished parts into their parents (`refresh_exact`).
-/
import TaggedText.Proofs.Query.Progress

namespace TaggedText.Query

/-! ## 1. The truth of a plan -/

/-- The value of a leaf for a choice, when predicates have no effects. -/
def Leaf.holdsFor (judge : Judge Id) (a : Choice) (l : Leaf) : Bool :=
  (l.predicate.holds judge (l.arguments.map a)).run

namespace Plan

/-- The value of the plan's tree for a choice. -/
def holdsFor (judge : Judge Id) (a : Choice) (p : Plan) : Bool :=
  p.tree.holds (Leaf.holdsFor judge a)

/-- What the finished parts of a node say: all of them hold, or some of them. -/
def FinishedHold (judge : Judge Id) (a : Choice) : Connective → List Plan → Prop
  | .conjunction, parts => ∀ q ∈ parts, q.isDone = true → q.holdsFor judge a = true
  | .disjunction, parts => ∃ q ∈ parts, q.isDone = true ∧ q.holdsFor judge a = true

/-- Two conditions joined by a connective. -/
def joins : Connective → Prop → Prop → Prop
  | .conjunction => And
  | .disjunction => Or

theorem joins_imp {connective : Connective} {P P' Q Q' : Prop} (hP : P → P') (hQ : Q → Q') :
    joins connective P Q → joins connective P' Q' := by
  cases connective with
  | conjunction => exact And.imp hP hQ
  | disjunction => exact Or.imp hP hQ

variable {judge : Judge Id} {a : Choice}

/-- A node of finished parts holds when its finished parts say so. -/
theorem holdsFor_node {connective : Connective} {done : Bool} {held : List Table}
    {parts : List Plan} (h : ∀ q ∈ parts, q.isDone = true) :
    (node connective done held parts).holdsFor judge a = true ↔
      FinishedHold judge a connective parts := by
  have hmem : ∀ P : Tree → Prop, (∀ t ∈ trees parts, P t) ↔ ∀ q ∈ parts, P q.tree := by
    simp [trees_eq_map]
  have hmem' : ∀ P : Tree → Prop, (∃ t ∈ trees parts, P t) ↔ ∃ q ∈ parts, P q.tree := by
    simp [trees_eq_map]
  cases connective with
  | conjunction =>
    rw [holdsFor, tree, Tree.holds, Tree.holdsAll_iff, hmem]
    exact forall₂_congr fun q hq => ⟨fun hholds _ => hholds, fun hholds => hholds (h q hq)⟩
  | disjunction =>
    rw [holdsFor, tree, Tree.holds, Tree.holdsAny_iff, hmem']
    exact exists_congr fun q => and_congr_right fun hq => by
      rw [h q hq]
      exact ⟨fun hholds => ⟨rfl, hholds⟩, fun hholds => hholds.2⟩

section Replace

variable {before after : List Plan} {p p' : Plan}

/-- A part that is as far as the one it replaces says the same. -/
theorem finishedHold_same {connective : Connective} (htree : p'.tree = p.tree)
    (hdone : p'.isDone = p.isDone) :
    FinishedHold judge a connective (before ++ p' :: after) ↔
      FinishedHold judge a connective (before ++ p :: after) := by
  have hholds : p'.holdsFor judge a = p.holdsFor judge a := by rw [holdsFor, holdsFor, htree]
  cases connective with
  | conjunction =>
    simp only [FinishedHold, List.forall_mem_append, List.forall_mem_cons, hdone, hholds]
  | disjunction =>
    simp only [FinishedHold, List.mem_append, List.mem_cons, or_and_right, exists_or,
      exists_eq_left, hdone, hholds]

/-- **A part that is finished now joins those that were.** -/
theorem finishedHold_now {connective : Connective} (hbefore : p.isDone = false)
    (hnow : p'.isDone = true) :
    FinishedHold judge a connective (before ++ p' :: after) ↔
      joins connective (FinishedHold judge a connective (before ++ p :: after))
        (p'.holdsFor judge a = true) := by
  cases connective with
  | conjunction =>
    simp only [FinishedHold, joins, List.forall_mem_append, List.forall_mem_cons, hbefore, hnow,
      Bool.false_eq_true, false_implies, forall_const, true_and]
    exact (and_assoc.trans (and_congr_right' and_comm)).symm
  | disjunction =>
    simp only [FinishedHold, joins, List.mem_append, List.mem_cons, or_and_right, exists_or,
      exists_eq_left, hbefore, hnow, Bool.false_eq_true, false_and, false_or, true_and]
    exact (or_assoc.trans (or_congr_right or_comm)).symm

end Replace

/-! ## 2. Exact plans -/

/-- The tables admit nothing but what was to be found; of what is taken from the columns of the
query and given, they admit all of it. -/
structure Captures (columns : List (List Span)) (used : List Nat) (above found : Choice → Prop)
    (tables : List Table) : Prop where
  sound : ∀ a, Table.AnyAdmits tables a → found a
  complete : ∀ a, TakesFrom columns used a → above a → found a → Table.AnyAdmits tables a

/-- What is known of choices below a node. -/
def given (judge : Judge Id) (above : Choice → Prop) (connective : Connective)
    (parts : List Plan) : Choice → Prop :=
  match connective with
  | .conjunction => fun a => above a ∧ FinishedHold judge a .conjunction parts
  | .disjunction => above

/-- **Every node holds what its finished parts say together**, as far as `above` and what the
conjunctions of the plan hold leave anything to say. -/
inductive Exact (judge : Judge Id) (columns : List (List Span)) (used : List Nat) :
    (Choice → Prop) → Plan → Prop
  | leaf {above : Choice → Prop} {l : Leaf} {estimate : Option Nat} {own : Option Table}
      (rows : ∀ t ∈ own, Captures columns used above (fun a => l.holdsFor judge a = true) [t]) :
      Exact judge columns used above (.leaf l estimate own)
  | node {above : Choice → Prop} {connective : Connective} {done : Bool} {held : List Table}
      {parts : List Plan}
      (tables : held ≠ [] →
        Captures columns used above (fun a => FinishedHold judge a connective parts) held)
      (exact : ∀ q ∈ parts, Exact judge columns used (given judge above connective parts) q) :
      Exact judge columns used above (.node connective done held parts)

variable {columns : List (List Span)} {used : List Nat} {above : Choice → Prop}

theorem Captures.mono {above' found : Choice → Prop} {tables : List Table}
    (h : Captures columns used above found tables)
    (hsub : ∀ a, TakesFrom columns used a → above' a → above a) :
    Captures columns used above' found tables :=
  ⟨h.sound, fun a htakes hgiven => h.complete a htakes (hsub a htakes hgiven)⟩

theorem Captures.congr {found found' : Choice → Prop} {tables : List Table}
    (h : Captures columns used above found tables) (hiff : ∀ a, found a ↔ found' a) :
    Captures columns used above found' tables :=
  ⟨fun a ha => (hiff a).mp (h.sound a ha),
    fun a htakes hgiven hf => h.complete a htakes hgiven ((hiff a).mpr hf)⟩

theorem given_mono {above' : Choice → Prop} {connective : Connective} {parts parts' : List Plan}
    (hsub : ∀ a, above' a → above a)
    (hparts : ∀ a, connective = .conjunction → FinishedHold judge a .conjunction parts' →
      FinishedHold judge a .conjunction parts) :
    ∀ a, given judge above' connective parts' a → given judge above connective parts a := by
  intro a h
  cases connective with
  | conjunction => exact ⟨hsub a h.1, hparts a rfl h.2⟩
  | disjunction => exact hsub a h

/-- **A stronger condition from above does no harm.** -/
theorem Exact.mono {p : Plan} (h : Exact judge columns used above p) :
    ∀ {above' : Choice → Prop}, (∀ a, above' a → above a) → Exact judge columns used above' p := by
  induction h with
  | leaf rows => exact fun hsub => .leaf fun t ht => (rows t ht).mono fun a _ => hsub a
  | node tables _ ih =>
    exact fun hsub => .node (fun hne => (tables hne).mono fun a _ => hsub a)
      fun q hq => ih q hq (given_mono hsub fun _ _ h => h)

theorem Exact.of_mem {connective : Connective} {done : Bool} {held : List Table}
    {parts : List Plan} (h : Exact judge columns used above (.node connective done held parts))
    {q : Plan} (hq : q ∈ parts) :
    Exact judge columns used (given judge above connective parts) q := by
  cases h with
  | node _ exact => exact exact q hq

/-- A plan of which nothing has been computed is exact. -/
theorem exact_ofTree (t : Tree) : ∀ {above : Choice → Prop},
    Exact judge columns used above (ofTree t) := by
  induction t using Tree.induct with
  | hleaf l => exact .leaf (by simp)
  | hnode connective parts ih =>
    refine .node (fun hne => absurd rfl hne) fun q hq => ?_
    rw [ofTrees_eq_map] at hq
    obtain ⟨t, ht, rfl⟩ := List.mem_map.mp hq
    exact ih t ht

/-- **A finished plan holds what its tree says.** -/
theorem Exact.captures {known : Nat → Prop} {p : Plan} (h : Exact judge columns used above p)
    (hs : p.Sound columns known) (hdone : p.isDone = true) :
    Captures columns used above (fun a => p.holdsFor judge a = true) p.held := by
  cases h with
  | @leaf _ l estimate own rows =>
    cases own with
    | none => simp [isDone] at hdone
    | some own => exact rows own rfl
  | node tables _ =>
    have hne := hs.held_ne_nil hdone
    cases hs with
    | node _ _ finished _ _ =>
      exact (tables hne).congr fun a => (holdsFor_node (finished hdone)).symm

/-! ## 3. One part of a node changes -/

section Change

variable {connective : Connective} {done : Bool} {held held' : List Table}
  {before after : List Plan} {p p' : Plan}

/-- A part that is as far as before. -/
theorem Exact.replace_same
    (h : Exact judge columns used above (.node connective done held (before ++ p :: after)))
    (htree : p'.tree = p.tree) (hdone : p'.isDone = p.isDone)
    (hp' : Exact judge columns used
      (given judge above connective (before ++ p :: after)) p') :
    Exact judge columns used above (.node connective done held (before ++ p' :: after)) := by
  have hsame : ∀ a c, FinishedHold judge a c (before ++ p' :: after) ↔
      FinishedHold judge a c (before ++ p :: after) := fun a c => finishedHold_same htree hdone
  cases h with
  | node tables exact =>
    refine .node (fun hne => ?_) fun q hq => ?_
    · exact (tables hne).congr fun a => (hsame a _).symm
    · exact (forall_mem_replace exact hp' q hq).mono
        (given_mono (fun _ h => h) fun a _ => (hsame a _).mp)

/-- **A part that has been finished**, with tables that say so. -/
theorem Exact.replace_now
    (h : Exact judge columns used above (.node connective done held (before ++ p :: after)))
    (hbefore : p.isDone = false) (hnow : p'.isDone = true)
    (hp' : Exact judge columns used
      (given judge above connective (before ++ p :: after)) p')
    (hheld : Captures columns used above (fun a => joins connective
      (FinishedHold judge a connective (before ++ p :: after))
      (p'.holdsFor judge a = true)) held') :
    Exact judge columns used above (.node connective done held' (before ++ p' :: after)) := by
  cases h with
  | node _ exact =>
    refine .node (fun _ => hheld.congr fun a => (finishedHold_now hbefore hnow).symm)
      fun q hq => ?_
    exact (forall_mem_replace exact hp' q hq).mono
      (given_mono (fun _ h => h) fun a _ hf => ((finishedHold_now hbefore hnow).mp hf).1)

/-- What the tables of a node say; none at all say nothing. -/
def HeldSays : Connective → List Table → Choice → Prop
  | .conjunction, held, a => held ≠ [] → Table.AnyAdmits held a
  | .disjunction, held, a => Table.AnyAdmits held a

/-- The tables of a node say what its finished parts say, also when there are none yet. -/
theorem Exact.heldSays {parts : List Plan} {known : Nat → Prop}
    (h : Exact judge columns used above (.node connective done held parts))
    (hs : Sound columns known (.node connective done held parts)) (a : Choice) :
    (HeldSays connective held a → FinishedHold judge a connective parts) ∧
      (TakesFrom columns used a → above a → FinishedHold judge a connective parts →
        HeldSays connective held a) := by
  cases h with
  | node tables _ =>
    cases hs with
    | node _ _ _ begun _ =>
      cases connective with
      | conjunction =>
        refine ⟨fun hstated q hq hdone => ?_, fun htakes hgiven hf hne =>
          (tables hne).complete a htakes hgiven hf⟩
        have hne := begun q hq hdone
        exact (tables hne).sound a (hstated hne) q hq hdone
      | disjunction =>
        refine ⟨fun hadm => ?_, fun htakes hgiven hf => ?_⟩
        · have hne : held ≠ [] := fun hnil => Table.anyAdmits_nil a (hnil ▸ hadm)
          exact (tables hne).sound a hadm
        · obtain ⟨q, hq, hdone, -⟩ := id hf
          exact (tables (begun q hq hdone)).complete a htakes hgiven hf

/-- **What a part has found, joined to what the node held**, is what the finished parts say once it
is one of them. -/
theorem Exact.captures_joins {known : Nat → Prop} {found : List Table}
    (h : Exact judge columns used above (.node connective done held (before ++ p :: after)))
    (hs : Sound columns known (.node connective done held (before ++ p :: after)))
    (hfound : Captures columns used (given judge above connective (before ++ p :: after))
      (fun a => p'.holdsFor judge a = true) found)
    (hheld : ∀ a, Table.AnyAdmits held' a ↔
      joins connective (HeldSays connective held a) (Table.AnyAdmits found a)) :
    Captures columns used above (fun a => joins connective
      (FinishedHold judge a connective (before ++ p :: after))
      (p'.holdsFor judge a = true)) held' := by
  have hstated := h.heldSays hs
  refine ⟨fun a ha => joins_imp (hstated a).1 (hfound.sound a) ((hheld a).mp ha),
    fun a htakes hgiven hf => (hheld a).mpr ?_⟩
  cases connective with
  | conjunction =>
    exact ⟨(hstated a).2 htakes hgiven hf.1, hfound.complete a htakes ⟨hgiven, hf.1⟩ hf.2⟩
  | disjunction =>
    exact hf.imp ((hstated a).2 htakes hgiven) (hfound.complete a htakes hgiven)

end Change

/-! ## 4. Evaluating a leaf -/

/-- The tables that bind a leaf leave out nothing that is given. -/
def Bounds (columns : List (List Span)) (used : List Nat) (above : Choice → Prop)
    (bound : Option (List Table)) : Prop :=
  ∀ a, TakesFrom columns used a → above a → Leaf.BoundAdmits bound a

section Evaluates

variable {estimate : Nat} {bound : Option (List Table)} {connective : Connective} {done : Bool}
  {held made : List Table} {before after : List Plan} {p p' : Plan}

/-- Below an exact node nothing is left out either. -/
theorem Exact.bounds (hb : Bounds columns used above bound)
    (h : Exact judge columns used above (.node connective done held before)) :
    Bounds columns used (given judge above connective before)
      (boundBelow connective held bound) := by
  intro a htakes hgiven
  rw [boundBelow]
  split
  · next hbinds =>
    obtain ⟨rfl, hne⟩ := hbinds
    cases h with
    | node tables _ =>
      rintro _ ⟨⟩
      exact (tables (by simpa using hne)).complete a htakes hgiven.1 hgiven.2
  · refine hb a htakes ?_
    cases connective with
    | conjunction => exact hgiven.1
    | disjunction => exact hgiven

/-- **What an evaluated leaf has found**: of what binds it, that which it holds for. -/
theorem Evaluates.found (h : Evaluates judge columns (· ∈ used) estimate bound p p' (some made))
    (hs : p.Sound columns (· ∈ used)) :
    (∀ a, Table.AnyAdmits made a → Leaf.BoundAdmits bound a) ∧
      Captures columns used (Leaf.BoundAdmits bound) (fun a => p'.holdsFor judge a = true)
        made := by
  cases h with
  | leaf evaluated =>
    cases hs with
    | leaf _ uses =>
      refine ⟨fun a ha => (evaluated.sorts.sound a ha).1,
        fun a ha => (evaluated.sorts.sound a ha).2, fun a htakes hbound hholds => ?_⟩
      by_contra hnot
      have hno := evaluated.sorts.complete a hbound (fun c hc => htakes c (uses c hc)) hnot
      exact Bool.false_ne_true (hno.symm.trans hholds)

/-- Rows that a conjunction holds are part of what is found, those of a disjunction are not. -/
theorem anyAdmits_deliver {a : Choice}
    (hmade : Table.AnyAdmits made a → Leaf.BoundAdmits (boundBelow connective held bound) a) :
    Table.AnyAdmits (deliver connective held made) a ↔
      joins connective (HeldSays connective held a) (Table.AnyAdmits made a) := by
  cases connective with
  | conjunction =>
    refine ⟨fun ha => ⟨fun hne => ?_, ha⟩, fun h => h.2⟩
    exact hmade ha held (by simp [boundBelow, hne])
  | disjunction => exact Table.anyAdmits_union

/-- **Evaluating a leaf keeps a plan exact.** -/
theorem Evaluates.exact {found : Option (List Table)}
    (h : Evaluates judge columns (· ∈ used) estimate bound p p' found) :
    ∀ {above : Choice → Prop}, p.Sound columns (· ∈ used) → Bounds columns used above bound →
      Exact judge columns used above p → Exact judge columns used above p' := by
  induction h with
  | @leaf bound l made own evaluated =>
    intro above hs hb _
    have hleaf : Evaluates judge columns (· ∈ used) estimate bound _ _ _ := .leaf evaluated
    obtain ⟨-, hfound⟩ := hleaf.found hs
    refine .leaf ?_
    rintro _ ⟨⟩
    refine ⟨fun a ha => ?_, fun a htakes hgiven hholds => ?_⟩
    · obtain ⟨b, hmade, hagree⟩ := (evaluated.own_admits a).mp (Table.anyAdmits_singleton.mp ha)
      exact (Leaf.says_congr hagree).mp (evaluated.sorts.sound b hmade).2
    · exact Table.anyAdmits_singleton.mpr ((evaluated.own_admits a).mpr
        ⟨a, hfound.complete a htakes (hb a htakes hgiven) hholds, fun _ _ => rfl⟩)
  | @node bound connective done held before after p p' found part ih =>
    intro above hs hb he
    have hmem : p ∈ before ++ p :: after := by simp
    have hp' := ih (hs.of_mem hmem) (he.bounds hb) (he.of_mem hmem)
    rcases part.finishes with ⟨rfl, hsame⟩ | ⟨made, rfl, hbefore, hnow, -⟩
    · exact he.replace_same part.tree_eq hsame hp'
    · obtain ⟨hbound, hmade⟩ := part.found (hs.of_mem hmem)
      exact he.replace_now hbefore hnow hp' (he.captures_joins hs (hmade.mono (he.bounds hb))
        fun a => anyAdmits_deliver (hbound a))

end Evaluates

/-! ## 5. Bringing a plan up to date -/

/-- Folding joins what was found to what was held. -/
theorem anyAdmits_absorb {known : Nat → Prop} {connective : Connective}
    {held found held' : List Table} (hheld : Table.Proper known (InColumn columns) held)
    (hfound : Table.Proper known (InColumn columns) found) (hne : found ≠ [])
    (hok : absorb connective held found = .ok held') (a : Choice) :
    Table.AnyAdmits held' a ↔
      joins connective (HeldSays connective held a) (Table.AnyAdmits found a) := by
  cases connective with
  | conjunction =>
    by_cases hempty : held = []
    · obtain rfl : found = held' := by simpa [absorb, hempty] using hok
      exact ⟨fun ha => ⟨fun hheld => absurd hempty hheld, ha⟩, fun h => h.2⟩
    · obtain ⟨joined, hjoined, -, -, hadmits⟩ := Table.joinAll_spec hheld.isOver hfound.isOver
      obtain rfl : joined = held' := by simpa [absorb, hempty, hne, hjoined] using hok
      rw [hadmits]
      exact and_congr_left fun _ => ⟨fun ha _ => ha, fun ha => ha hempty⟩
  | disjunction =>
    obtain rfl : Table.union held found = held' := by simpa [absorb] using hok
    exact Table.anyAdmits_union

/-- **The next part is brought up to date and folded into its parent.** -/
theorem Refreshed.exact {connective : Connective} {done : Bool} {held held' : List Table}
    {before after : List Plan} {p p' : Plan} {found : Option (List Table)}
    (hr : Refreshed columns (· ∈ used) p p' found)
    (hs : Sound columns (· ∈ used) (.node connective done held (before ++ p :: after)))
    (h : Exact judge columns used above (.node connective done held (before ++ p :: after)))
    (hp' : Exact judge columns used (given judge above connective (before ++ p :: after)) p')
    (hok : absorbed connective held found = .ok held') :
    Exact judge columns used above (.node connective done held' (before ++ p' :: after)) := by
  cases hr.finishes with
  | unchanged same =>
    cases hok
    exact h.replace_same hr.tree same hp'
  | now hbefore hnow =>
    have hproper : Table.Proper (· ∈ used) (InColumn columns) held := hs.proper_held
    exact h.replace_now hbefore hnow hp' (h.captures_joins hs (hp'.captures hr.sound hnow)
      (anyAdmits_absorb hproper hr.sound.proper_held (hr.sound.held_ne_nil hnow) hok))

mutual

/-- **Bringing a plan up to date keeps it exact.** -/
theorem refresh_exact : ∀ {p p' : Plan} {bound found : Option (List Table)}
    {above : Choice → Prop}, p.Sound columns (· ∈ used) → Exact judge columns used above p →
    p.refresh columns bound = .ok (p', found) → Exact judge columns used above p'
  | leaf l estimate none, _, _, _, _, _, _, h => by
    cases h
    exact .leaf (by simp)
  | leaf l estimate (some own), _, _, _, _, _, he, h => by
    cases h
    exact he
  | node connective true held parts, _, _, _, _, _, he, h => by
    cases h
    exact he
  | node connective false held parts, p', bound, found, above, hs, he, h => by
    obtain ⟨⟨held', parts'⟩, hparts, h⟩ := exists_of_map_ok h
    cases refreshParts_exact [] hs he hparts with
    | node tables exact =>
      dsimp only at h
      split at h <;> cases h <;> exact .node tables exact

/-- The parts of a node behind those that have been brought up to date already. -/
theorem refreshParts_exact : ∀ {parts parts' : List Plan} {binds : Bool}
    {connective : Connective} {held held' : List Table} {bound : Option (List Table)}
    {above : Choice → Prop} (before : List Plan),
    Sound columns (· ∈ used) (.node connective false held (before ++ parts)) →
    Exact judge columns used above (.node connective false held (before ++ parts)) →
    refreshParts columns binds bound connective held parts = .ok (held', parts') →
    Exact judge columns used above (.node connective false held' (before ++ parts'))
  | [], _, _, _, _, _, _, _, _, _, he, h => by
    cases h
    exact he
  | p :: rest, parts', binds, connective, held, held', bound, above, before, hs, he, h => by
    have hmem : p ∈ before ++ p :: rest := by simp
    obtain ⟨p', found, held', rest', rfl, hok, hr, habsorbed, hs', hrest⟩ :=
      refreshParts_cons_inv hs h
    have hp' := refresh_exact (hs.of_mem hmem) (he.of_mem hmem) hok
    have he' := hr.exact hs he hp' habsorbed
    have := refreshParts_exact (before ++ [p']) (by simpa using hs') (by simpa using he') hrest
    simpa using this

end

/-! ## 6. Every moment of an evaluation -/

/-- **A round keeps a plan exact.** -/
theorem round_exact {s s' : Scheduler} (hs : s.plan.Sound columns (· ∈ used)) (hc : s.Coherent)
    (he : Exact judge columns used (fun _ => True) s.plan)
    (h : Gives (s.round judge columns) (.ok s')) :
    Exact judge columns used (fun _ => True) s'.plan := by
  rcases Scheduler.round_gives hs hc h with
    ⟨hfault, -⟩ | ⟨_, _, middle, _, _, _, hok, heval, -, hrefresh, -⟩
  · cases hfault
  · cases hok
    have hbounds : Bounds columns used (fun _ => True) none := by simp [Bounds, Leaf.BoundAdmits]
    exact refresh_exact (heval.sound hs) (heval.exact hs hbounds he) hrefresh

/-- The first update of a plan. -/
theorem refresh_ofTree_exact {t : Tree} (ht : t.Formed) {p : Plan} {found : Option (List Table)}
    (h : (ofTree t).refresh columns none = .ok (p, found)) :
    Exact judge columns t.used (fun _ => True) p :=
  refresh_exact (sound_ofTree ht fun l hl _ hc => List.mem_flatMap.mpr ⟨l, hl, hc⟩)
    (exact_ofTree t) h

theorem rounds_exact {t : Tree} (ht : t.Formed) : ∀ {n : Nat} {s : Scheduler},
    Gives (Scheduler.rounds judge columns t n) (.ok s) →
      Exact judge columns t.used (fun _ => True) s.plan
  | 0, s, h => by
    obtain ⟨_, _, hok, hrefresh, -⟩ := Scheduler.underway_first columns ht
    cases (Gives.of_liftFault h).trans hok
    exact refresh_ofTree_exact ht hrefresh
  | n + 1, s, h => by
    obtain ⟨_, _, hfault⟩ | ⟨before, hbefore, h⟩ := Gives.of_bind h
    · cases hfault
    rcases Scheduler.rounds_gives ht hbefore with ⟨-, hfault⟩ | ⟨_, hok, hunderway⟩
    · cases hfault
    · cases hok
      exact round_exact hunderway.sound hunderway.coherent (rounds_exact ht hbefore) h

/-- What the finished parts of the conjunctions among some nodes say. -/
def FinishedAbove (judge : Judge Id) (a : Choice) (outer : List Plan) : Prop :=
  ∀ done held parts, node .conjunction done held parts ∈ outer →
    FinishedHold judge a .conjunction parts

/-- A node of an exact plan is exact, below what the conjunctions above it say. -/
theorem Exact.of_above {p q : Plan} {outer : List Plan} (h : Above p outer q)
    (he : Exact judge columns used (fun _ => True) p) :
    Exact judge columns used (fun a => FinishedAbove judge a outer) q := by
  induction h with
  | root => exact he.mono fun _ _ => trivial
  | @part outer connective done held parts q _ part ih =>
    refine (ih.of_mem part).mono fun a h => ?_
    have houter : FinishedAbove judge a outer := fun done' held' parts' hmem =>
      h done' held' parts' (List.mem_cons_of_mem _ hmem)
    cases connective with
    | conjunction => exact ⟨houter, h done held parts List.mem_cons_self⟩
    | disjunction => exact houter

/-- **What a node holds is what its finished parts say together**, after every round: a choice that
its tables admit makes all of them true, or some of them if the node is a disjunction; and such a
choice is admitted if it takes its spans from the columns and makes the finished parts of every
conjunction above true.  There is such a state after every number of rounds up to that of the
leaves. -/
theorem holds_what_is_finished (judge : Judge Id) (columns : List (List Span)) {t : Tree}
    (ht : t.Formed) (n : Nat) :
    (n ≤ t.leaves.length → ∃ s, (Scheduler.rounds judge columns t n).run.run = .ok s) ∧
      ∀ {s : Scheduler} {outer : List Plan} {connective : Connective} {done : Bool}
        {held : List Table} {parts : List Plan},
        (Scheduler.rounds judge columns t n).run.run = .ok s →
        Above s.plan outer (node connective done held parts) → held ≠ [] →
        ∀ a, (Table.AnyAdmits held a → FinishedHold judge a connective parts) ∧
          (TakesFrom columns t.used a → FinishedAbove judge a outer →
            FinishedHold judge a connective parts → Table.AnyAdmits held a) := by
  refine ⟨fun hn => ?_, fun {s outer connective done held parts} hs hq hne a => ?_⟩
  · have hgives : Gives (Scheduler.rounds judge columns t n)
        (Scheduler.rounds judge columns t n).run.run := rfl
    rcases Scheduler.rounds_gives ht hgives with ⟨hlt, -⟩ | ⟨s, hok, -⟩
    · omega
    · exact ⟨s, hok⟩
  · cases (rounds_exact ht hs).of_above hq with
    | node tables _ =>
      exact ⟨(tables hne).sound a, fun htakes hgiven => (tables hne).complete a htakes hgiven⟩

/-- After the first of three leaves, the conjunction holds the one row that its predicate accepts,
while the disjunction below it holds nothing yet. -/
theorem holds_what_is_finished_first :
    let span : Span := ⟨0, 1, 0, by decide⟩
    let columns : List (List Span) := [[span, ⟨1, 9, 0, by decide⟩], [span]]
    let judge : Judge Id := fun _ row => row.all fun span => span.stop - span.start < 5
    let small : Leaf := ⟨.user "small", [0]⟩
    let near : Leaf := ⟨.relation .before, [0, 1]⟩
    let held : List Table := [⟨[0], [[span]]⟩]
    (Scheduler.rounds judge columns (.node .conjunction
        [.leaf small, .node .disjunction [.leaf near, .leaf small]]) 1).run.run =
      .ok ⟨.node .conjunction false held
        [.leaf small (some 1) (some ⟨[0], [[span]]⟩), .node .disjunction false []
          [.leaf near (some 1) none, .leaf small (some 1) none]], [(1, 3), (1, 4)]⟩ ∧
      Table.AnyAdmits held fun _ => span := by
  intro span columns judge small near held
  refine ⟨by cbv, ((holds_what_is_finished judge columns (t := .node .conjunction
    [.leaf small, .node .disjunction [.leaf near, .leaf small]]) (.node (by simp) ?_) 1).2
    (by cbv) .root (by simp [held]) _).2 ?_ ?_ ?_⟩
  · simp [Tree.Formed.leaf, Tree.Formed.node, small, near]
  · simp [TakesFrom, InColumn, Tree.used, Tree.leaves, Tree.leavesIn, small, near, columns]
  · simp [FinishedAbove]
  · simp [FinishedHold, isDone, holdsFor, tree, Tree.holds, Leaf.holdsFor, Predicate.holds, Id.run,
      judge, small, span]

end Plan

end TaggedText.Query
