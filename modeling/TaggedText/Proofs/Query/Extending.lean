/-
# Extending is joining

A leaf below a conjunction that holds tables is not evaluated on its own: it extends the rows that
the conjunction holds.  This module shows that nothing else comes out than if the leaf had found its
own rows in the columns of the query and these had been joined with what the conjunction holds
(`extending_bound_rows_is_joining`): the same columns, table by table, and in each table the same
rows.

For one table this needs that bound spans come from the columns, so that a bound row that is kept
agrees with one of the leaf's own rows; it does not matter whether the leaf shares columns with the
table (`Extended.same_finds`).  Both ways of evaluating ask the predicate about different rows in a
different order, so a predicate of the user that reads more than its row may answer one of them with
yes and the other with no.  About the rows of which that is so, nothing is said.
-/
import TaggedText.Proofs.Query.Progress

namespace TaggedText

open MonadAttach (CanReturn)

namespace Query

/-! ## 1. Tables with the same rows -/

namespace Leaf

variable {m : Type → Type} [Monad m] [MonadAttach m]
variable {l : Leaf} {judge : Judge m} {columns : List (List Span)} {known : Nat → Prop}

/-- The predicate may answer either way about a row over some columns. -/
def Wavers (judge : Judge m) (l : Leaf) (columns : List Nat) (row : Row) : Prop :=
  ∃ a : Choice, columns.map a = row ∧ l.Says judge a true ∧ l.Says judge a false

/-- **Two tables have the same columns and the same rows**, as far as the predicate does not waver
about a row. -/
structure SameFinds (judge : Judge m) (l : Leaf) (t t' : Table) : Prop where
  columns_eq : t.columns = t'.columns
  rows : ∀ row, (row ∈ t.rows ↔ row ∈ t'.rows) ∨ l.Wavers judge t.columns row

theorem SameFinds.dedup {t t' : Table} (h : l.SameFinds judge t t') :
    l.SameFinds judge t.dedup t'.dedup where
  columns_eq := h.columns_eq
  rows row := by
    rw [Table.mem_rows_dedup, Table.mem_rows_dedup]
    exact h.rows row

/-- The rows of two pairs of tables with the same columns, put together. -/
theorem SameFinds.append {first first' t t' : Table} (hfirst : l.SameFinds judge first first')
    (h : l.SameFinds judge t t') (hcolumns : first.columns = t.columns) :
    l.SameFinds judge ⟨first.columns, (first.rows ++ t.rows).eraseDups⟩
      ⟨first'.columns, (first'.rows ++ t'.rows).eraseDups⟩ where
  columns_eq := hfirst.columns_eq
  rows row := by
    simp only [List.mem_eraseDups, List.mem_append]
    rcases hfirst.rows row with hiff | hwavers
    · rcases h.rows row with hiff' | hwavers'
      · exact .inl (or_congr hiff hiff')
      · exact .inr (hcolumns ▸ hwavers')
    · exact .inr hwavers

/-- **Adding such tables to lists of such tables** keeps them so: either both lists have a table
with these columns, or none. -/
theorem SameFinds.addTo {t t' : Table} (h : l.SameFinds judge t t') {tables tables' : List Table}
    (htables : List.Forall₂ (l.SameFinds judge) tables tables') :
    List.Forall₂ (l.SameFinds judge) (t.addTo tables) (t'.addTo tables') := by
  induction htables with
  | nil => exact .cons h .nil
  | @cons first first' rest rest' hfirst hrest ih =>
    by_cases hc : first.columns = t.columns
    · have hc' : first'.columns = t'.columns := by rw [← hfirst.columns_eq, hc, h.columns_eq]
      rw [Table.addTo, Table.addTo, if_pos hc, if_pos hc']
      exact .cons (hfirst.append h hc) hrest
    · have hc' : ¬ first'.columns = t'.columns := by
        rwa [← hfirst.columns_eq, ← h.columns_eq]
      rw [Table.addTo, Table.addTo, if_neg hc, if_neg hc']
      exact .cons hfirst ih

/-! ## 2. One table -/

/-- **A table extended by a leaf is the table joined with the leaf's own rows.** -/
theorem Extended.same_finds {t extended own joined : Table}
    (h : l.Extended judge columns known t extended) (hown : l.Selected judge columns own)
    (hjoined : Table.Conjoins t own joined) : l.SameFinds judge extended joined := by
  have hcolumns : extended.columns = joined.columns := by
    rw [h.columns_eq, hjoined.columns, hown.columns_eq]
  have hadmits : ∀ a : Choice, ¬ (l.Says judge a true ∧ l.Says judge a false) →
      (extended.Admits a ↔ joined.Admits a) := by
    intro a hsteady
    rw [hjoined.admits]
    constructor
    · intro ha
      obtain ⟨hbase, hyes⟩ := h.sorts.sound a ha
      refine ⟨hbase, ?_⟩
      -- what is bound comes from the columns, so the leaf has been asked about it
      have htakes : TakesFrom columns l.columns a := fun c hc =>
        h.isOver.allowed_of_admits ha c (h.covers c hc)
      by_contra hnot
      exact hsteady ⟨hyes, hown.sorts.complete a trivial htakes hnot⟩
    · rintro ⟨hbase, ha⟩
      obtain ⟨-, hyes⟩ := hown.sorts.sound a ha
      have htakes : TakesFrom columns l.columns a := by
        have := Table.forall₂_map_iff.mp (hown.taken _ ha)
        rwa [hown.columns_eq] at this
      by_contra hnot
      exact hsteady ⟨hyes, h.sorts.complete a hbase htakes hnot⟩
  refine ⟨hcolumns, fun row => ?_⟩
  by_cases hrow : ∃ a : Choice, extended.columns.map a = row
  · obtain ⟨a, rfl⟩ := hrow
    by_cases hwavers : l.Says judge a true ∧ l.Says judge a false
    · exact .inr ⟨a, rfl, hwavers⟩
    · left
      rw [← Table.Admits, hadmits a hwavers, Table.Admits, hcolumns]
  · left
    constructor
    · intro hr
      obtain ⟨a, ha, -⟩ := h.isOver.regular.exists_admits hr
      exact absurd ⟨a, ha⟩ hrow
    · intro hr
      obtain ⟨a, ha, -⟩ := hjoined.regular.exists_admits hr
      exact absurd ⟨a, hcolumns ▸ ha⟩ hrow

/-! ## 3. All tables that bind a leaf -/

variable [LawfulMonad m] [LawfulMonadAttach m] {own : Table}

/-- Extending tables one by one goes along with joining them one by one. -/
theorem extendAll_same_finds (hl : l.arguments ≠ []) (hknown : ∀ c ∈ l.columns, known c)
    (hown : l.Selected judge columns own) :
    ∀ {tables made joined : List Table} {found : Option Table} {r : Except Fault (List Table)},
    (∀ o ∈ found, l.Selected judge columns o) →
    (∀ t ∈ tables, t.Over known (InColumn columns)) →
    List.Forall₂ (l.SameFinds judge) made joined →
    Gives (l.extendAll judge columns found made tables) r →
    ∃ made' joined', r = .ok made' ∧
      Table.joinInto joined (tables.map fun t => (t, own)) = .ok joined' ∧
      List.Forall₂ (l.SameFinds judge) made' joined'
  | [], made, joined, found, r, _, _, hmade, h =>
    ⟨made, joined, Gives.of_pure h, rfl, hmade⟩
  | t :: rest, made, joined, found, r, hfound, htables, hmade, h => by
    obtain ⟨ht, hrest⟩ := List.forall_mem_cons.mp htables
    rw [extendAll] at h
    obtain ⟨first, hfirst, h⟩ := h.first
    obtain ⟨found', extended, rfl, hfound', hextended⟩ := extend_gives hl hknown hfound ht hfirst
    obtain ⟨both, hboth, hconjoins⟩ :=
      Table.both_spec ht.regular (hown.isOver hl hknown).regular
    have hsame := hextended.same_finds hown hconjoins
    obtain ⟨made', joined', hok, hjoin, hall⟩ :=
      extendAll_same_finds hl hknown hown hfound' hrest (hsame.dedup.addTo hmade) (h _ rfl)
    refine ⟨made', joined', hok, ?_, hall⟩
    rw [List.map_cons, Table.joinInto, hboth]
    exact hjoin

/-- **Evaluating a leaf against tables** finds what joining them with its own rows gives; neither
fails. -/
theorem evaluate_same_finds (hl : l.arguments ≠ []) (hknown : ∀ c ∈ l.columns, known c)
    (hown : l.Selected judge columns own) {tables : List Table}
    (htables : ∀ t ∈ tables, t.Over known (InColumn columns))
    {r : Except Fault (List Table × Table)}
    (h : Gives (l.evaluate judge columns (some tables)) r) :
    ∃ made rows joined, r = .ok (made, rows) ∧ Table.joinAll tables [own] = .ok joined ∧
      List.Forall₂ (l.SameFinds judge) made joined := by
  have hnone : ∀ o ∈ (none : Option Table), l.Selected judge columns o := by simp
  have hjoinAll : Table.joinAll tables [own] =
      Table.joinInto [] (tables.map fun t => (t, own)) := by
    rw [Table.joinAll]
    congr 1
    exact List.flatMap_pure_eq_map (fun t => (t, own)) tables
  rw [hjoinAll]
  obtain ⟨first, hfirst, h⟩ := h.first
  obtain ⟨made, joined, rfl, hjoined, hall⟩ :=
    extendAll_same_finds hl hknown hown hnone htables .nil hfirst
  exact ⟨made, _, joined, Gives.of_pure (h _ rfl), hjoined, hall⟩

/-- **A predicate that answers every row always in the same way wavers about none.** -/
theorem not_wavers {σ : Type} {judge : Judge (StateM σ)} {l : Leaf}
    (h : ∀ (row : Row) (s s' : σ), ((l.predicate.holds judge row).run s).run.1 =
      ((l.predicate.holds judge row).run s').run.1) (columns : List Nat) (row : Row) :
    ¬ l.Wavers judge columns row := by
  rintro ⟨a, -, ⟨s, _, hyes⟩, ⟨s', _, hno⟩⟩
  have hsame := h (l.arguments.map a) s s'
  rw [hyes, hno] at hsame
  cases hsame

end Leaf

/-! ## 4. Leaves that wait -/

namespace Plan

/-- The nodes above a node are nodes of the plan. -/
theorem Above.of_mem_outer {p q node : Plan} {outer : List Plan} (h : Above p outer q)
    (hnode : node ∈ outer) : ∃ outer', Above p outer' node := by
  induction h with
  | root => simp at hnode
  | part above _ ih =>
    rcases List.mem_cons.mp hnode with rfl | hnode
    · exact ⟨_, above⟩
    · exact ih hnode

/-- **What a leaf finds by extending bound rows is what joining finds.**  In every state that
updates and steps lead to, for every leaf that waits and every conjunction above it that holds
tables: evaluating the leaf against these tables does not fail, joining them with the leaf's own
rows does not fail either, and both give the same tables with the same rows, as far as the predicate
does not answer a row in two ways. -/
theorem extending_bound_rows_is_joining {σ : Type} (judge : Judge (StateM σ))
    (columns : List (List Span)) {t : Tree} (ht : t.Formed) {s : Scheduler}
    (h : s.Reachable judge columns t) {outer : List Plan} {l : Leaf} {estimate : Option Nat}
    (hleaf : Above s.plan outer (.leaf l estimate none)) {done : Bool} {held : List Table}
    {parts : List Plan} (hnode : .node .conjunction done held parts ∈ outer) (user user' : σ) :
    ∃ made own joined,
      endFrom (l.evaluate judge columns (some held)) user = .ok (made, own) ∧
      Table.joinAll held [((l.select judge columns).run user').run.1] = .ok joined ∧
      List.Forall₂ (l.SameFinds judge) made joined := by
  obtain ⟨_, habove⟩ := hleaf.of_mem_outer hnode
  have hproper := ((h.sound ht).of_above habove).proper_held
  cases (h.sound ht).of_above hleaf with
  | leaf arguments uses _ =>
    have hselect : CanReturn (l.select judge columns) ((l.select judge columns).run user').run.1 :=
      ⟨user', ((l.select judge columns).run user').run.2, rfl⟩
    exact Leaf.evaluate_same_finds arguments uses (Leaf.select_gives arguments hselect)
      hproper.isOver (gives_endFrom _ user)

/-- A leaf below a disjunction below the conjunction that holds the rows of another leaf.  Its
predicate is a relation, so it wavers about no row. -/
theorem extending_bound_rows_is_joining_below :
    let span : Span := ⟨0, 1, 0, by decide⟩
    let next : Span := ⟨1, 3, 0, by decide⟩
    let columns : List (List Span) := [[span], [span, next]]
    let judge : Judge (StateM Nat) := fun _ _ n => (n % 2 = 0, n + 1)
    let l : Leaf := ⟨.relation .meets, [0, 1]⟩
    let held : List Table := [⟨[0], [[span]]⟩]
    ∃ made own joined,
      endFrom (l.evaluate judge columns (some held)) 1 = .ok (made, own) ∧
      Table.joinAll held [((l.select judge columns).run 7).run.1] = .ok joined ∧
      List.Forall₂ (fun t t' => t.columns = t'.columns ∧ ∀ row, row ∈ t.rows ↔ row ∈ t'.rows)
        made joined := by
  intro span next columns judge l held
  let other : Leaf := ⟨.user "every other", [0]⟩
  let last : Leaf := ⟨.user "every other", [1, 0]⟩
  let either : Plan := .node .disjunction false [] [.leaf l (some 2) none, .leaf last (some 2) none]
  let t := Tree.node .conjunction [.leaf other, .node .disjunction [.leaf l, .leaf last]]
  have hformed : t.Formed :=
    .node (by simp) (by simp [Tree.Formed.leaf, Tree.Formed.node, other, l, last])
  let started : Scheduler :=
    ⟨.node .conjunction false [] [.leaf other (some 1) none, either], [(1, 1), (2, 3), (2, 4)]⟩
  let bound : Plan :=
    .node .conjunction false held [.leaf other (some 1) (some ⟨[0], [[span]]⟩), either]
  have hupdate : (Scheduler.ofTree t).update columns = .ok started := by cbv
  have hstep : endFrom (started.step judge columns) 0 = .ok ⟨bound, [(2, 3), (2, 4)]⟩ := by cbv
  have habove : Above bound [either, bound] (.leaf l (some 2) none) :=
    .part (.part .root (List.mem_cons_of_mem _ List.mem_cons_self)) List.mem_cons_self
  obtain ⟨made, own, joined, hevaluate, hjoin, hsame⟩ :=
    extending_bound_rows_is_joining judge columns hformed (.step (.update .start hupdate) hstep)
      habove (List.mem_cons_of_mem _ List.mem_cons_self) 1 7
  refine ⟨made, own, joined, hevaluate, hjoin, hsame.imp fun t t' h => ⟨h.columns_eq, fun row => ?_⟩⟩
  exact (h.rows row).resolve_right (Leaf.not_wavers (fun _ _ _ => rfl) _ _)

end Plan

end Query

end TaggedText
