/-
# Rows in groups

Rows are taken one after the other, and the value of each is put at the end of the group for the
bounds that it has in the column to group by.  What stands at any time are the groups of the rows
taken so far: **one for each of the bounds, in the order of first appearance, with the values of
the rows that have them, in the order of the rows** (`Groups.ofEntries`).  One more value changes
one group or makes a new one behind the others, and both ways it ends with the groups of one more
row (`Groups.add_ofEntries`).

Rows of one length all have both columns, or none of them does.  So the grouping fails exactly when
there is a row and it lacks a column, and otherwise no row is left out: `rows_go_into_groups_once`.
-/
import TaggedText.Proofs.Query.Union
import TaggedText.Spans.Group

namespace TaggedText

/-! ## 1. Lists by keys -/

section Keys

variable {α β : Type} [BEq α] [LawfulBEq α] [BEq β] [LawfulBEq β] {f : α → β}

theorem idxOf_map (hf : Function.Injective f) (a : α) (l : List α) :
    (l.map f).idxOf (f a) = l.idxOf a := by
  induction l with
  | nil => rfl
  | cons b l ih => by_cases h : b = a <;> simp [ih, h, hf.eq_iff]

/-- First appearances stay so under other names. -/
theorem FirstAppearances.map (hf : Function.Injective f) {all kept : List α}
    (h : FirstAppearances all kept) : FirstAppearances (all.map f) (kept.map f) := by
  refine ⟨h.nodup.map hf, fun b => ?_, ?_⟩
  · simp only [List.mem_map, h.mem_iff]
  · refine List.pairwise_map.mpr (h.ordered.imp fun {a b} hlt => ?_)
    rwa [idxOf_map hf, idxOf_map hf]

end Keys

/-- **A list is what it is split into by keys**, if every member has one of them. -/
theorem flatMap_filter_perm {α β : Type} [DecidableEq β] (f : α → β) {keys : List β}
    (hkeys : keys.Nodup) {l : List α} (hl : ∀ a ∈ l, f a ∈ keys) :
    (keys.flatMap fun key => l.filter fun a => f a = key).Perm l := by
  induction keys generalizing l with
  | nil =>
    cases l with
    | nil => rfl
    | cons a l => exact absurd (hl a List.mem_cons_self) List.not_mem_nil
  | cons key keys ih =>
    obtain ⟨hnot, hkeys⟩ := List.nodup_cons.mp hkeys
    have hothers : ∀ a ∈ l.filter fun a => !decide (f a = key), f a ∈ keys := by
      intro a ha
      obtain ⟨ha, hne⟩ := List.mem_filter.mp ha
      have hne : f a ≠ key := by simpa using hne
      exact (List.mem_cons.mp (hl a ha)).resolve_left hne
    have hsame : (keys.flatMap fun other => l.filter fun a => f a = other) =
        keys.flatMap fun other => (l.filter fun a => !decide (f a = key)).filter
          fun a => f a = other := by
      refine List.flatMap_congr fun other hother => ?_
      rw [List.filter_filter]
      refine List.filter_congr fun a _ => ?_
      by_cases ha : f a = other
      · have hne : other ≠ key := fun h => hnot (h ▸ hother)
        simp [ha, hne]
      · simp [ha]
    rw [List.flatMap_cons, hsame]
    exact ((ih hkeys hothers).append_left _).trans (List.filter_append_perm _ l)

namespace Spans

/-! ## 2. The groups of entries -/

/-- The groups of values with their keys: one for each key, in the order of first appearance. -/
def Groups.ofEntries (entries : List ((Nat × Nat) × Span)) : Groups :=
  (entries.map Prod.fst).eraseDups.map fun key =>
    (key, (entries.filter fun e => e.1 = key).map Prod.snd)

/-- **One more value** goes to the end of its group, or makes a group behind the others. -/
theorem Groups.add_map {keys : List (Nat × Nat)} (hkeys : keys.Nodup)
    (values : Nat × Nat → List Span) (key : Nat × Nat) (value : Span) :
    Groups.add key value (keys.map fun k => (k, values k)) =
      if key ∈ keys then keys.map fun k => (k, if k = key then values k ++ [value] else values k)
      else (keys.map fun k => (k, values k)) ++ [(key, [value])] := by
  induction keys with
  | nil => rfl
  | cons k keys ih =>
    obtain ⟨hnot, hkeys⟩ := List.nodup_cons.mp hkeys
    rw [List.map_cons, Groups.add]
    by_cases hk : k = key
    · subst hk
      have hothers : ∀ other ∈ keys,
          (other, values other) =
            (other, if other = k then values other ++ [value] else values other) := by
        intro other hother
        have hne : other ≠ k := by
          rintro rfl
          exact hnot hother
        rw [if_neg hne]
      simp [List.map_congr_left hothers]
    · rw [if_neg hk, ih hkeys]
      by_cases hmem : key ∈ keys <;> simp [hmem, hk, Ne.symm hk]

/-- **One more value makes the groups of one more entry.** -/
theorem Groups.add_ofEntries (entries : List ((Nat × Nat) × Span)) (e : (Nat × Nat) × Span) :
    Groups.add e.1 e.2 (Groups.ofEntries entries) = Groups.ofEntries (entries ++ [e]) := by
  rw [Groups.ofEntries, Groups.add_map (nodup_eraseDups _), Groups.ofEntries, List.map_append,
    List.eraseDups_append, List.map_singleton]
  have hvalues : ∀ key, ((entries ++ [e]).filter fun x => x.1 = key).map Prod.snd =
      if key = e.1 then ((entries.filter fun x => x.1 = key).map Prod.snd) ++ [e.2]
      else (entries.filter fun x => x.1 = key).map Prod.snd := by
    intro key
    by_cases h : key = e.1
    · simp [h]
    · simp [h, Ne.symm h]
  simp only [hvalues, List.mem_eraseDups]
  by_cases hmem : e.1 ∈ entries.map Prod.fst
  · have hnone : [e.1].removeAll (entries.map Prod.fst) = [] := by
      simpa [List.removeAll] using hmem
    simp [hmem, hnone]
  · have hone : [e.1].removeAll (entries.map Prod.fst) = [e.1] := by
      simpa [List.removeAll] using hmem
    have hempty : entries.filter (fun x => x.1 = e.1) = [] := by
      refine List.filter_eq_nil_iff.mpr fun x hx hkey => hmem ?_
      exact List.mem_map.mpr ⟨x, hx, of_decide_eq_true hkey⟩
    have hothers : ∀ key ∈ (entries.map Prod.fst).eraseDups, key ≠ e.1 := by
      rintro key hkey rfl
      exact hmem (List.mem_eraseDups.mp hkey)
    rw [if_neg hmem, hone, List.map_append]
    congr 1
    · refine List.map_congr_left fun key hkey => ?_
      rw [if_neg (hothers key hkey)]
    · rw [eraseDups_of_nodup (List.nodup_singleton e.1), List.map_singleton, if_pos rfl, hempty]
      rfl

/-! ## 3. The groups of rows -/

variable {rows : List Row} {n group out : Nat}

/-- The bounds in a column of a row, if it has the column. -/
def boundsIn (column : Nat) (row : Row) : Option (Nat × Nat) :=
  row[column]?.map fun a => (a.start, a.stop)

/-- The value of a row, with the key of its group, if it has both columns. -/
def keyed? (group out : Nat) (row : Row) : Option ((Nat × Nat) × Span) :=
  match boundsIn group row, row[out]? with
  | some key, some value => some (key, value)
  | _, _ => none

theorem addRow_ofEntries (entries : List ((Nat × Nat) × Span)) (row : Row) :
    Groups.addRow group out (Groups.ofEntries entries) row =
      Groups.ofEntries (entries ++ (keyed? group out row).toList) := by
  unfold Groups.addRow keyed? boundsIn
  cases row[group]? with
  | none => simp
  | some key =>
    cases row[out]? with
    | none => simp
    | some value => exact Groups.add_ofEntries entries ((key.start, key.stop), value)

/-- **Rows that are taken one after the other leave the groups of all of them.** -/
theorem foldl_addRow (group out : Nat) (rows : List Row) (entries : List ((Nat × Nat) × Span)) :
    rows.foldl (Groups.addRow group out) (Groups.ofEntries entries) =
      Groups.ofEntries (entries ++ rows.filterMap (keyed? group out)) := by
  induction rows generalizing entries with
  | nil => simp
  | cons row rows ih =>
    rw [List.foldl_cons, addRow_ofEntries, ih, List.append_assoc]
    cases h : keyed? group out row <;> simp [h]

/-- All rows have both columns. -/
def HaveColumns (rows : List Row) (group out : Nat) : Prop :=
  ∀ row ∈ rows, group < row.length ∧ out < row.length

/-- **No row is left out**: the keys of the entries are the bounds in the rows, and the values with
a key are those of the rows with these bounds. -/
theorem HaveColumns.entries (h : HaveColumns rows group out) :
    ((rows.filterMap (keyed? group out)).map Prod.fst).map some = rows.map (boundsIn group) ∧
    ∀ key, (((rows.filterMap (keyed? group out)).filter fun e => e.1 = key).map Prod.snd).map some =
      (rows.filter fun row => boundsIn group row = some key).map (·[out]?) := by
  induction rows with
  | nil => exact ⟨rfl, fun _ => rfl⟩
  | cons row rows ih =>
    obtain ⟨⟨hgroup, hout⟩, hrest⟩ := List.forall_mem_cons.mp h
    obtain ⟨hkeys, hvalues⟩ := ih hrest
    have hbounds : boundsIn group row = some (row[group].start, row[group].stop) := by
      simp [boundsIn, hgroup]
    have hentry : keyed? group out row =
        some ((row[group].start, row[group].stop), row[out]) := by
      simp [keyed?, hbounds, hout]
    constructor
    · simp [hentry, hbounds, ← hkeys]
    · intro key
      have hrow : row[out]? = some row[out] := List.getElem?_eq_getElem hout
      rw [List.filterMap_cons_some hentry, List.filter_cons, List.filter_cons, hbounds]
      by_cases hkey : (row[group].start, row[group].stop) = key <;> simp [hkey, hrow, ← hvalues]

/-- **Groups of rows**: one for each of the bounds that the rows have in the column to group by, in
the order of first appearance.  Each lists the other column of the rows with its bounds, in the
order of the rows; none is empty, and all together list every row once. -/
structure GroupsOf (rows : List Row) (group out : Nat) (keys : List (Nat × Nat))
    (groups : List (List Span)) : Prop where
  firsts : FirstAppearances (rows.map (boundsIn group)) (keys.map some)
  values : groups.map (List.map some) =
    keys.map fun key => (rows.filter fun row => boundsIn group row = some key).map (·[out]?)
  ne_nil : ∀ values ∈ groups, values ≠ []
  once : (groups.flatten.map some).Perm (rows.map (·[out]?))

/-- **Rows that have both columns are grouped.** -/
theorem HaveColumns.groupsOf (h : HaveColumns rows group out) :
    ∃ keys, GroupsOf rows group out keys
      ((rows.foldl (Groups.addRow group out) []).map Prod.snd) := by
  have hgroups := foldl_addRow group out rows []
  rw [List.nil_append] at hgroups
  obtain ⟨hentries, hvalues⟩ := h.entries
  let entries := rows.filterMap (keyed? group out)
  let keys := (entries.map Prod.fst).eraseDups
  have hfirst : FirstAppearances (rows.map (boundsIn group)) (keys.map some) := by
    rw [← hentries]
    exact (firstAppearances_eraseDups _).map (Option.some_injective _)
  have hlists : ((rows.foldl (Groups.addRow group out) []).map Prod.snd).map (List.map some) =
      keys.map fun key => (rows.filter fun row => boundsIn group row = some key).map (·[out]?) := by
    rw [show ([] : Groups) = Groups.ofEntries [] from rfl, hgroups, Groups.ofEntries,
      List.map_map, List.map_map]
    exact List.map_congr_left fun key _ => hvalues key
  refine ⟨keys, hfirst, hlists, ?_, ?_⟩
  · rintro values hmem rfl
    have hmem := List.mem_map_of_mem (f := List.map some) hmem
    rw [hlists] at hmem
    obtain ⟨key, hkey, hempty⟩ := List.mem_map.mp hmem
    obtain ⟨row, hrow, hbounds⟩ :=
      List.mem_map.mp ((hfirst.mem_iff (some key)).mp (List.mem_map_of_mem hkey))
    have hfilter := List.map_eq_nil_iff.mp hempty
    exact List.filter_eq_nil_iff.mp hfilter row hrow (by simpa using hbounds)
  · rw [List.map_flatten, hlists, ← List.flatMap_def, ← List.map_flatMap]
    refine List.Perm.map _ ?_
    have hperm := flatMap_filter_perm (boundsIn group) hfirst.nodup (l := rows) fun row hrow =>
      (hfirst.mem_iff _).mpr (List.mem_map_of_mem hrow)
    rwa [List.flatMap_map] at hperm

/-- **Rows of one length go into groups, each of them once**, unless there is a row and it lacks one
of the two columns; then the grouping fails, and says which columns were asked for. -/
theorem rows_go_into_groups_once (hrows : ∀ row ∈ rows, row.length = n) (group out : Nat) :
    ((∃ e, groupBy rows group out = .error e ∧ e.code = 110401) ↔
      rows ≠ [] ∧ (n ≤ group ∨ n ≤ out)) ∧
    (∀ e, groupBy rows group out = .error e → e = .groupColumns group out (n - 1)) ∧
    (¬ (rows ≠ [] ∧ (n ≤ group ∨ n ≤ out)) →
      ∃ keys groups, groupBy rows group out = .ok groups ∧ GroupsOf rows group out keys groups) := by
  cases rows with
  | nil =>
    refine ⟨by simp [groupBy], by simp [groupBy], fun _ => ?_⟩
    have hcolumns : HaveColumns [] group out := by simp [HaveColumns]
    obtain ⟨keys, hgroups⟩ := hcolumns.groupsOf
    exact ⟨keys, [], rfl, hgroups⟩
  | cons first rest =>
    have hfirst : first.length = n := hrows first List.mem_cons_self
    by_cases hlacks : n ≤ group ∨ n ≤ out
    · have herror : groupBy (first :: rest) group out = .error (.groupColumns group out (n - 1)) := by
        rw [groupBy, hfirst, if_pos hlacks]
      rw [herror]
      refine ⟨by simp [hlacks, Fault.code], ?_, fun hnot => absurd ⟨by simp, hlacks⟩ hnot⟩
      intro e he
      cases he
      rfl
    · have hcolumns : HaveColumns (first :: rest) group out := by
        intro row hrow
        rw [hrows row hrow]
        omega
      have hok : groupBy (first :: rest) group out =
          .ok (((first :: rest).foldl (Groups.addRow group out) []).map Prod.snd) := by
        rw [groupBy, hfirst, if_neg hlacks]
      obtain ⟨keys, hgroups⟩ := hcolumns.groupsOf
      rw [hok]
      exact ⟨by simp [hlacks], by simp, fun _ => ⟨keys, _, rfl, hgroups⟩⟩

/-- Rows that are grouped by bounds which come again with another offset and out of turn; there is
no third column to list. -/
theorem rows_go_into_groups_once_out_of_turn :
    let a : Span := ⟨1, 2, 0, by decide⟩
    let b : Span := ⟨1, 2, 9, by decide⟩
    let c : Span := ⟨2, 3, 7, by decide⟩
    let rows : List Row := [[c, a], [a, c], [b, a], [c, a], [a, b]]
    (∀ row ∈ rows, row.length = 2) ∧ groupBy rows 0 1 = .ok [[a, a], [c, a, b]] ∧
    (∃ keys, GroupsOf rows 0 1 keys [[a, a], [c, a, b]]) ∧
    ∃ e, groupBy rows 0 2 = .error e ∧ e.code = 110401 := by
  intro a b c rows
  have hrows : ∀ row ∈ rows, row.length = 2 := by decide
  have hok : groupBy rows 0 1 = .ok [[a, a], [c, a, b]] := rfl
  obtain ⟨keys, groups, hgroups, hkeys⟩ :=
    (rows_go_into_groups_once hrows 0 1).2.2 (by simp)
  cases hok.symm.trans hgroups
  exact ⟨hrows, hok, ⟨keys, hkeys⟩, (rows_go_into_groups_once hrows 0 2).1.mpr (by simp [rows])⟩

end Spans

end TaggedText
