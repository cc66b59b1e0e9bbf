/-
# Estimates after an update

A step takes the leaf with the least estimate, so what it takes depends on how well the estimates
fit the tables that the leaves will be evaluated against.  `Plan.current` has the estimates that
fit: each leaf against the tables that bind it in the plan as it is.

An update goes through the parts of a node from left to right, and folds a part that it finishes
into the node before it goes on.  So the tables that bind a leaf may change after the leaf has been
estimated: when a part behind it is folded into its conjunction, or any part if the conjunction held
nothing before and so did not bind at all.  These leaves are `Plan.rebound`.  **All other estimates
are current**: `Plan.estimates_are_current_but_after_folding`.  Without such leaves, the step after
an update takes a leaf that is really cheapest.

With them, **a step may take a leaf although another one has no row to look at**:
`Plan.estimates_stale_after_folding`.
-/
import TaggedText.Proofs.Query.Progress

namespace TaggedText.Query

namespace Plan

/-! ## 1. Current estimates -/

mutual

/-- The leaves that have not been evaluated, each with its estimate against the tables that bind it
now and with its number, the root having the given number. -/
def currentFrom (columns : List (List Span)) (bound : Option (List Table)) (number : Nat) :
    Plan → List Pending
  | leaf l _ none => [(l.estimate columns bound, number)]
  | leaf _ _ (some _) => []
  | node connective _ held parts =>
    currentIn columns (boundBelow connective held bound) (number + 1) parts

/-- The same for plans that follow each other. -/
def currentIn (columns : List (List Span)) (bound : Option (List Table)) (number : Nat) :
    List Plan → List Pending
  | [] => []
  | p :: rest =>
    p.currentFrom columns bound number ++ currentIn columns bound (number + p.tree.size) rest

end

/-- The leaves that have not been evaluated, each with its estimate against the tables that bind it
now and with its number. -/
def current (columns : List (List Span)) (p : Plan) : List Pending :=
  p.currentFrom columns none 0

mutual

theorem map_snd_currentFrom (columns : List (List Span)) :
    ∀ (bound : Option (List Table)) (number : Nat) (p : Plan),
      (p.currentFrom columns bound number).map Prod.snd = p.unevaluatedFrom number
  | _, _, leaf _ _ none => rfl
  | _, _, leaf _ _ (some _) => rfl
  | _, number, node _ _ _ parts => map_snd_currentIn columns _ (number + 1) parts

/-- Every leaf that has not been evaluated has one current estimate. -/
theorem map_snd_currentIn (columns : List (List Span)) :
    ∀ (bound : Option (List Table)) (number : Nat) (parts : List Plan),
      (currentIn columns bound number parts).map Prod.snd = unevaluatedIn number parts
  | _, _, [] => rfl
  | bound, number, p :: rest => by
    rw [currentIn, List.map_append, map_snd_currentFrom columns bound number p,
      map_snd_currentIn columns bound _ rest, unevaluatedIn]

end

/-! ## 2. Leaves that an update has bound anew -/

/-- From these parts of a node on, before and after an update, what binds the parts has changed
behind the first of them.  A conjunction that holds tables binds its parts: it has changed if it
held nothing before, or if one of these parts has been finished.  Any other node leaves its parts to
what binds from above, of which `changed` says the same. -/
def changedBelow (connective : Connective) (held held' : List Table) (changed : Bool)
    (parts parts' : List Plan) : Bool :=
  if connective = .conjunction ∧ !held'.isEmpty then
    held.isEmpty || parts.map isDone != parts'.map isDone
  else changed

mutual

/-- The leaves for which what binds them has changed after they were estimated, in a plan and the
one that an update has made of it. -/
def reboundFrom (changed : Bool) (number : Nat) : Plan → Plan → List Nat
  | node _ _ held parts, node connective _ held' parts' =>
    reboundIn (changedBelow connective held held' changed) (number + 1) parts parts'
  | _, p' => if changed then p'.unevaluatedFrom number else []

/-- The same for the parts of a node. -/
def reboundIn (changed : List Plan → List Plan → Bool) (number : Nat) :
    List Plan → List Plan → List Nat
  | p :: rest, p' :: rest' =>
    reboundFrom (changed (p :: rest) (p' :: rest')) number p p' ++
      reboundIn changed (number + p'.tree.size) rest rest'
  | _, _ => []

end

/-- **The leaves that an update has bound anew** after it has estimated them. -/
def rebound (p p' : Plan) : List Nat := reboundFrom false 0 p p'

/-! ## 3. What a node holds during an update -/

section Update

variable {columns : List (List Span)} {known : Nat → Prop}

/-- **A node holds the same as before when no part of it has been finished**, and something when it
held something before. -/
theorem refreshParts_held : ∀ {parts parts' : List Plan} {binds : Bool} {connective : Connective}
    {held held' : List Table} {bound : Option (List Table)} (before : List Plan),
    Sound columns known (.node connective false held (before ++ parts)) →
    refreshParts columns binds bound connective held parts = .ok (held', parts') →
    (parts.map isDone = parts'.map isDone → held' = held) ∧ (held ≠ [] → held' ≠ [])
  | [], _, _, _, _, _, _, _, _, h => by
    cases h
    exact ⟨fun _ => rfl, fun hne => hne⟩
  | p :: rest, _, binds, connective, held, held'', bound, before, hs, h => by
    obtain ⟨p', found, held', rest', rfl, -, hr, habsorbed, hs', hrest⟩ :=
      refreshParts_cons_inv hs h
    obtain ⟨hsame, hne⟩ := refreshParts_held (before ++ [p']) (by simpa using hs') hrest
    cases hr.finishes with
    | unchanged _ =>
      cases habsorbed
      constructor
      · intro hdone
        exact hsame (List.cons.inj hdone).2
      · exact hne
    | now hbefore hnow =>
      constructor
      · -- this part has been finished, so the parts are not as they were
        intro hdone
        have hfirst : p.isDone = p'.isDone := (List.cons.inj hdone).1
        rw [hbefore, hnow] at hfirst
        cases hfirst
      · intro _
        apply hne
        cases hs' with
        | node _ _ _ begun _ => exact begun p' (by simp) hnow

/-- **A part is estimated against the tables that bind it in the end**, unless they have changed
behind it. -/
theorem bound_eq_of_not_changed {connective : Connective} {held held' middle : List Table}
    {parts parts' before rest rest' : List Plan} {bound bound' : Option (List Table)}
    {changed : Bool} (hs : Sound columns known (.node connective false held parts))
    (h : refreshParts columns (connective = .conjunction ∧ !held.isEmpty) bound connective held
      parts = .ok (held', parts'))
    (hbound : changed = false → bound = bound')
    (hs' : Sound columns known (.node connective false middle (before ++ rest)))
    (hrest : refreshParts columns (connective = .conjunction ∧ !held.isEmpty) bound connective
      middle rest = .ok (held', rest'))
    (hsame : changedBelow connective held held' changed rest rest' = false) :
    (if decide (connective = .conjunction ∧ !held.isEmpty) then some middle else bound) =
      boundBelow connective held' bound' := by
  rw [changedBelow] at hsame
  rw [boundBelow]
  split at hsame
  · -- the node binds in the end: it did before, and nothing was folded into it from here on
    next hbinds =>
    obtain ⟨hheld, hdone⟩ := Bool.or_eq_false_iff.mp hsame
    have hmiddle : held' = middle :=
      (refreshParts_held before hs' hrest).1 (by simpa using hdone)
    rw [if_pos (by simp [hbinds.1, hheld]), if_pos hbinds, hmiddle]
  · -- the node does not bind in the end, so it never did: what a node holds is not lost
    next hbinds =>
    have hnever : ¬ (connective = .conjunction ∧ !held.isEmpty) := by
      rintro ⟨hconjunction, hheld⟩
      have hheld' : held' ≠ [] := (refreshParts_held [] hs h).2 (by simpa using hheld)
      exact hbinds ⟨hconjunction, by simpa using hheld'⟩
    rw [if_neg (by simpa using hnever), if_neg hbinds]
    exact hbound hsame

/-! ## 4. Estimates during an update -/

/-- A stored estimate and a current one are of the same leaf, and they are the same unless that leaf
is one of some. -/
def AgreesBut (but : List Nat) (stored now : Pending) : Prop :=
  stored.2 = now.2 ∧ (stored.2 ∉ but → stored.1 = now.1)

theorem AgreesBut.mono {but but' : List Nat} (hsub : but ⊆ but') {stored now : Pending}
    (h : AgreesBut but stored now) : AgreesBut but' stored now :=
  ⟨h.1, fun hnot => h.2 fun hmem => hnot (hsub hmem)⟩

theorem forall₂_agreesBut_append {but but' : List Nat} {stored stored' now now' : List Pending}
    (h : List.Forall₂ (AgreesBut but) stored now)
    (h' : List.Forall₂ (AgreesBut but') stored' now') :
    List.Forall₂ (AgreesBut (but ++ but')) (stored ++ stored') (now ++ now') :=
  List.rel_append (h.imp fun _ _ => .mono (List.subset_append_left but but'))
    (h'.imp fun _ _ => .mono (List.subset_append_right but but'))

/-- No estimate of a finished plan counts. -/
theorem Sound.estimatesFrom_of_isDone {p : Plan} (h : p.Sound columns known)
    (hdone : p.isDone = true) (number : Nat) : p.estimatesFrom number = [] := by
  have hsettled := h.settled_of_isDone hdone
  rw [← List.map_eq_nil_iff (f := Prod.snd), hsettled.map_snd_estimatesFrom number]
  exact (hsettled.isDone_iff number).mp hdone

theorem Sound.currentFrom_of_isDone {p : Plan} (h : p.Sound columns known)
    (hdone : p.isDone = true) (bound : Option (List Table)) (number : Nat) :
    p.currentFrom columns bound number = [] := by
  rw [← List.map_eq_nil_iff (f := Prod.snd), map_snd_currentFrom columns bound number p]
  exact ((h.settled_of_isDone hdone).isDone_iff number).mp hdone

mutual

/-- **The estimates of an updated plan are current but for the leaves that it has bound anew**, if
it was bound by what binds it now. -/
theorem refresh_current : ∀ {p p' : Plan} {bound bound' found : Option (List Table)}
    {changed : Bool} (number : Nat), p.Sound columns known →
    p.refresh columns bound = .ok (p', found) → (changed = false → bound = bound') →
    List.Forall₂ (AgreesBut (reboundFrom changed number p p')) (p'.estimatesFrom number)
      (p'.currentFrom columns bound' number)
  | leaf l estimate none, _, bound, bound', _, changed, number, _, h, hbound => by
    cases h
    refine .cons ⟨rfl, fun hnot => ?_⟩ .nil
    -- if what binds the leaf has changed, the leaf itself is among those left out
    cases changed with
    | true => simp [reboundFrom, unevaluatedFrom] at hnot
    | false => rw [hbound rfl]
  | leaf l estimate (some own), _, _, _, _, _, _, _, h, _ => by
    cases h
    exact .nil
  | node connective true held parts, _, _, bound', _, _, number, hs, h, _ => by
    cases h
    rw [hs.estimatesFrom_of_isDone rfl, hs.currentFrom_of_isDone rfl]
    exact .nil
  | node connective false held parts, p', bound, bound', found, changed, number, hs, h, hbound => by
    obtain ⟨⟨held', parts'⟩, hparts, h⟩ := exists_of_map_ok h
    have hall := refreshParts_current [] (number + 1) hs hparts
      fun _ _ _ _ hs' hrest => bound_eq_of_not_changed hs hparts hbound hs' hrest
    dsimp only at h
    split at h <;> cases h <;> exact hall

/-- The same for the parts of a node behind those that have been brought up to date already, when
each of them is estimated against what binds it in the end unless that changes behind it. -/
theorem refreshParts_current : ∀ {parts parts' : List Plan} {binds : Bool}
    {connective : Connective} {held held' : List Table} {bound bound' : Option (List Table)}
    {changed : List Plan → List Plan → Bool} (before : List Plan) (number : Nat),
    Sound columns known (.node connective false held (before ++ parts)) →
    refreshParts columns binds bound connective held parts = .ok (held', parts') →
    (∀ (middle : List Table) (before rest rest' : List Plan),
      Sound columns known (.node connective false middle (before ++ rest)) →
      refreshParts columns binds bound connective middle rest = .ok (held', rest') →
      changed rest rest' = false → (if binds then some middle else bound) = bound') →
    List.Forall₂ (AgreesBut (reboundIn changed number parts parts')) (estimatesIn number parts')
      (currentIn columns bound' number parts')
  | [], _, _, _, _, _, _, _, _, _, _, _, h, _ => by
    cases h
    exact .nil
  | p :: rest, _, _, _, _, _, _, _, _, before, number, hs, h, hbound => by
    have hfirst := hbound _ before _ _ hs h
    obtain ⟨p', _, _, _, rfl, hok, _, _, hs', hrest⟩ := refreshParts_cons_inv hs h
    exact forall₂_agreesBut_append (refresh_current number (hs.of_mem (by simp)) hok hfirst)
      (refreshParts_current (before ++ [p']) _ (by simpa using hs') hrest hbound)

end

end Update

/-! ## 5. Reachable plans -/

theorem agreesBut_mem_iff {but : List Nat} {stored now : List Pending}
    (h : List.Forall₂ (AgreesBut but) stored now) {e i : Nat} (hi : i ∉ but) :
    (e, i) ∈ stored ↔ (e, i) ∈ now := by
  induction h with
  | nil => simp
  | @cons a b _ _ hab _ ih =>
    obtain ⟨hleaf, hestimate⟩ := hab
    have hhead : (e, i) = a ↔ (e, i) = b := by
      constructor
      · rintro rfl
        exact Prod.ext (hestimate hi) hleaf
      · rintro rfl
        have hfirst : a.2 = i := hleaf
        exact Prod.ext (hestimate (hfirst ▸ hi)).symm hleaf.symm
    rw [List.mem_cons, List.mem_cons, hhead, ih]

/-- **The estimates that an update stores are current, but for the leaves that it has bound anew by
folding a part into their conjunction**; and when there are none of these, the next step takes a
leaf whose estimate is least against the tables that it is evaluated against. -/
theorem estimates_are_current_but_after_folding {σ : Type} (judge : Judge (StateM σ))
    (columns : List (List Span)) {t : Tree} (ht : t.Formed) {s s' : Scheduler}
    (h : s.Reachable judge columns t) (hupdate : s.update columns = .ok s') :
    (s'.pending.map Prod.snd).Perm s'.plan.unevaluated ∧
    (s'.plan.current columns).map Prod.snd = s'.plan.unevaluated ∧
    (∀ e i, i ∉ rebound s.plan s'.plan →
      ((e, i) ∈ s'.pending ↔ (e, i) ∈ s'.plan.current columns)) ∧
    (rebound s.plan s'.plan = [] → s'.plan.unevaluated ≠ [] → ∀ user : σ, ∃ s'' e i found,
      endFrom (s'.step judge columns) user = .ok s'' ∧
      Evaluates judge columns (· ∈ t.used) e none s'.plan s''.plan found ∧
      s''.plan.unevaluated = s'.plan.unevaluated.erase i ∧
      (e, i) ∈ s'.plan.current columns ∧
      ∀ e' j, (e', j) ∈ s'.plan.current columns → e ≤ e') := by
  obtain ⟨_, found, hok, hrefresh, hr, hc⟩ := Scheduler.update_gives (h.sound ht) (h.coherent ht)
  cases hupdate.symm.trans hok
  have hagrees : List.Forall₂ (AgreesBut (rebound s.plan s'.plan)) s'.plan.estimates
      (s'.plan.current columns) :=
    refresh_current 0 (h.sound ht) hrefresh fun _ => rfl
  have hnumbers : (s'.pending.map Prod.snd).Perm s'.plan.unevaluated := by
    rw [unevaluated, ← hr.settled.map_snd_estimatesFrom 0]
    exact hc.perm.map Prod.snd
  have hcurrent : ∀ e i, i ∉ rebound s.plan s'.plan →
      ((e, i) ∈ s'.pending ↔ (e, i) ∈ s'.plan.current columns) := by
    intro e i hi
    rw [hc.mem]
    exact agreesBut_mem_iff hagrees hi
  refine ⟨hnumbers, map_snd_currentFrom columns none 0 s'.plan, hcurrent, ?_⟩
  intro hnone hne user
  have hcurrent : ∀ e i, (e, i) ∈ s'.pending ↔ (e, i) ∈ s'.plan.current columns :=
    fun e i => hcurrent e i (by simp [hnone])
  rcases Scheduler.step_gives hr.sound hc (gives_endFrom (s'.step judge columns) user) with
    ⟨-, hempty⟩ | ⟨e, i, s'', found', hstep, hfirst, heval, htakes, -⟩
  · rw [hempty] at hnumbers
    exact absurd hnumbers.nil_eq.symm hne
  · refine ⟨s'', e, i, found', hstep, heval, htakes.unevaluated_eq_erase, ?_, ?_⟩
    · exact (hcurrent e i).mp (hfirst ▸ List.mem_cons_self)
    · -- the entries stand in order, so the first one is least
      intro e' j hj
      have hentry : (e', j) ∈ (e, i) :: s''.pending := hfirst ▸ (hcurrent e' j).mpr hj
      rcases List.mem_cons.mp hentry with heq | hlater
      · cases heq
        exact Nat.le_refl e
      · have horder := hc.order
        rw [hfirst] at horder
        rcases List.rel_of_pairwise_cons horder hlater with hlt | ⟨heq, -⟩
        · exact Nat.le_of_lt hlt
        · exact Nat.le_of_eq heq

/-- The first step has bound both other leaves, and no inner node has been finished.  One of them has
one row to look at now, and is taken next. -/
theorem estimates_are_current_but_after_folding_bound :
    let a : Span := ⟨0, 1, 0, by decide⟩
    let b : Span := ⟨1, 2, 0, by decide⟩
    let c : Span := ⟨2, 3, 0, by decide⟩
    let columns : List (List Span) := [[a, b], [b], [a, b, c]]
    let judge : Judge (StateM Nat) := fun _ _ n => (true, n + 1)
    let t := Tree.node .conjunction [.leaf ⟨.relation .equal, [0, 1]⟩,
      .leaf ⟨.relation .before, [0, 2]⟩, .leaf ⟨.relation .meets, [1, 0]⟩]
    let p' : Plan := .node .conjunction false [⟨[0, 1], [[b, b]]⟩]
      [.leaf ⟨.relation .equal, [0, 1]⟩ (some 1) (some ⟨[0, 1], [[b, b]]⟩),
        .leaf ⟨.relation .before, [0, 2]⟩ (some 3) none,
        .leaf ⟨.relation .meets, [1, 0]⟩ (some 1) none]
    let s' : Scheduler := ⟨p', [(1, 3), (3, 2)]⟩
    (∀ e i, (e, i) ∈ s'.pending ↔ (e, i) ∈ p'.current columns) ∧
      ∀ user : Nat, ∃ s'' e i found, endFrom (s'.step judge columns) user = .ok s'' ∧
        Evaluates judge columns (· ∈ t.used) e none p' s''.plan found ∧
        s''.plan.unevaluated = [2, 3].erase i ∧
        (e, i) ∈ p'.current columns ∧ ∀ e' j, (e', j) ∈ p'.current columns → e ≤ e' := by
  intro a b c columns judge t p' s'
  let others (first second : Nat) : List Plan :=
    [.leaf ⟨.relation .before, [0, 2]⟩ (some first) none,
      .leaf ⟨.relation .meets, [1, 0]⟩ (some second) none]
  let started : Scheduler :=
    ⟨.node .conjunction false [] (.leaf ⟨.relation .equal, [0, 1]⟩ (some 2) none :: others 6 2),
      [(2, 1), (2, 3), (6, 2)]⟩
  let stepped : Scheduler := ⟨.node .conjunction false [⟨[0, 1], [[b, b]]⟩]
    (.leaf ⟨.relation .equal, [0, 1]⟩ (some 1) (some ⟨[0, 1], [[b, b]]⟩) :: others 6 2),
      [(2, 3), (6, 2)]⟩
  have hstart : (Scheduler.ofTree t).update columns = .ok started := by cbv
  have hstep : endFrom (started.step judge columns) 0 = .ok stepped := by cbv
  have hupdate : stepped.update columns = .ok s' := by cbv
  have hnone : rebound stepped.plan s'.plan = [] := by cbv
  have hreachable : stepped.Reachable judge columns t := .step (.update .start hstart) hstep
  have hformed : t.Formed := .node (by simp) (by simp [Tree.Formed.leaf])
  obtain ⟨-, -, hcurrent, hnext⟩ :=
    estimates_are_current_but_after_folding judge columns hformed hreachable hupdate
  constructor
  · intro e i
    exact hcurrent e i (by simp [hnone])
  · exact hnext hnone (by decide)

/-- **A step may take a leaf with rows to look at although another one has none.**  The "or" is
finished by the update before: the "and" holds its table without rows then, but the estimate of the
last leaf is the one from before, and the step takes the first leaf. -/
theorem estimates_stale_after_folding :
    let columns : List (List Span) :=
      [[⟨0, 1, 0, by decide⟩, ⟨2, 3, 0, by decide⟩], [⟨4, 5, 0, by decide⟩],
        [⟨6, 7, 0, by decide⟩], [⟨8, 9, 0, by decide⟩],
        [⟨10, 11, 0, by decide⟩, ⟨12, 13, 0, by decide⟩, ⟨14, 15, 0, by decide⟩]]
    let judge : Judge (StateM Nat) := fun _ _ n => (true, n + 1)
    let t := Tree.node .conjunction [.leaf ⟨.relation .before, [0, 1]⟩,
      .node .disjunction [.leaf ⟨.relation .equal, [2, 3]⟩, .leaf ⟨.relation .equal, [2, 3]⟩],
      .leaf ⟨.relation .before, [2, 4]⟩]
    ∃ s s' s'' : Scheduler, s.Reachable judge columns t ∧ s.update columns = .ok s' ∧
      endFrom (s'.step judge columns) 0 = .ok s'' ∧ rebound s.plan s'.plan = [1, 5] ∧
      s'.pending = [(2, 1), (3, 5)] ∧ s'.plan.current columns = [(2, 1), (0, 5)] ∧
      s'.plan.unevaluated = [1, 5] ∧ s''.plan.unevaluated = [5] := by
  intro columns judge t
  let empty : Table := ⟨[2, 3], []⟩
  let last : Plan := .leaf ⟨.relation .before, [2, 4]⟩ (some 3) none
  let first : Plan := .leaf ⟨.relation .before, [0, 1]⟩ (some 2) none
  let waits : Plan := .leaf ⟨.relation .equal, [2, 3]⟩ (some 1) none
  let found : Plan := .leaf ⟨.relation .equal, [2, 3]⟩ (some 0) (some empty)
  let started : Scheduler :=
    ⟨.node .conjunction false [] [first, .node .disjunction false [] [waits, waits], last],
      [(1, 3), (1, 4), (2, 1), (3, 5)]⟩
  let halfway : Plan :=
    .node .conjunction false [] [first, .node .disjunction false [empty] [found, waits], last]
  let finished : Scheduler :=
    ⟨.node .conjunction false [] [first, .node .disjunction false [empty] [found, found], last],
      [(2, 1), (3, 5)]⟩
  let folded : Scheduler :=
    ⟨.node .conjunction false [empty]
      [first, .node .disjunction true [empty] [found, found], last], [(2, 1), (3, 5)]⟩
  have hstart : (Scheduler.ofTree t).update columns = .ok started := by cbv
  have hfirst : endFrom (started.step judge columns) 0 =
      .ok ⟨halfway, [(1, 4), (2, 1), (3, 5)]⟩ := by cbv
  have hbetween : (Scheduler.mk halfway [(1, 4), (2, 1), (3, 5)]).update columns =
      .ok ⟨halfway, [(1, 4), (2, 1), (3, 5)]⟩ := by cbv
  have hsecond : endFrom ((Scheduler.mk halfway [(1, 4), (2, 1), (3, 5)]).step judge columns) 0 =
      .ok finished := by cbv
  have hreachable : finished.Reachable judge columns t :=
    .step (.update (.step (.update .start hstart) hfirst) hbetween) hsecond
  let taken : Scheduler := ⟨.node .conjunction false [⟨[0, 1, 2, 3], []⟩]
    [.leaf ⟨.relation .before, [0, 1]⟩ (some 0) (some ⟨[0, 1], []⟩),
      .node .disjunction true [empty] [found, found], last], [(3, 5)]⟩
  have hupdate : finished.update columns = .ok folded := by cbv
  have hthird : endFrom (folded.step judge columns) 0 = .ok taken := by cbv
  exact ⟨finished, folded, taken, hreachable, hupdate, hthird, by cbv, by cbv, by cbv, by cbv,
    by cbv⟩

end Plan

end TaggedText.Query
