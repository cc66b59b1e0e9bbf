/-
# Columns are what aligned fields link

Two fields are aligned if they intersect once the lines that they lie in are moved to the left
margin.  A column is a set of fields that aligned fields link with each other; two of its members
need not be aligned themselves.

The program has no such sets.  It sorts the fields as counted from their lines and goes through
them once, putting each field into the cluster before it or into a new one; then the members are
counted from the beginning of the text again.  A field lies in exactly one line, so nothing is lost
on the way (`InLine.unique`), and the clusters are the columns (`columnSets_eq`).  **The column of
a text is found exactly if there is one column in which the text occurs**, and all its fields are
given (`columnContaining_finds_the_column`).
-/
import TaggedText.Column
import TaggedText.Pattern.Compile
import TaggedText.Proofs.Offsets
import TaggedText.Proofs.Pattern.Fields
import TaggedText.Proofs.Pattern.Lines
import TaggedText.Proofs.Spans.Clustering
import Mathlib

namespace TaggedText.Columns

open Pattern (fields lines)

variable {text : List Char} {a a' b b' : Span}

/-! ## 1. Aligned fields -/

/-- A field of a text that lies in a line, and the same field counted from the start of the line. -/
structure InLine (text : List Char) (a a' : Span) : Prop where
  field : a ∈ fields text
  line : ∃ r ∈ lines text, a.within r = true ∧ Document.relativeTo a r = some a'

/-- Two fields intersect once their lines are moved to the left margin. -/
def Aligned (text : List Char) (a b : Span) : Prop :=
  ∃ a' b', InLine text a a' ∧ InLine text b b' ∧ a'.intersects b' = true

/-- The columns of a text: the sets of fields that aligned fields link. -/
def columnSets (text : List Char) : Set (Set Span) :=
  {column | ∃ a a', InLine text a a' ∧ column = {b | Relation.ReflTransGen (Aligned text) a b}}

/-- The columns with a field in which a text occurs. -/
def showing (needle : String) (text : List Char) : Set (Set Span) :=
  {column ∈ columnSets text | ∃ a ∈ column,
    ∃ o ∈ (Pattern.literal needle.toList).spans 0 false text, o.within a = true}

/-- A field is not empty, and is counted from the beginning of the text. -/
theorem field_spec (h : a ∈ fields text) : a.start < a.stop ∧ a.offset = 0 := by
  obtain ⟨front, run, back, -, -, hrun, -, rfl⟩ := Pattern.mem_fields.mp h
  obtain ⟨c, rest, rfl⟩ := List.exists_cons_of_ne_nil hrun.ne_nil
  have hc := c.utf8Size_pos
  refine ⟨?_, rfl⟩
  simp only [Pattern.spanOf, Text.width_cons]
  omega

/-- Counted from the beginning of the text again, a field is what it was. -/
theorem InLine.absolute (h : InLine text a a') : a'.absolute = a := by
  obtain ⟨r, -, hwithin, hrelative⟩ := h.line
  obtain ⟨b, hb, -, hbounds⟩ := Document.exists_relativeTo hwithin
  cases hrelative.symm.trans hb
  have hoffset := (field_spec h.field).2
  obtain ⟨hstart, hstop⟩ := Prod.mk.inj hbounds
  cases a
  simp only [Span.absolute, Span.mk.injEq]
  exact ⟨hstart, hstop, hoffset.symm⟩

theorem InLine.positive (h : InLine text a a') : a'.start < a'.stop := by
  have ha := (field_spec h.field).1
  rw [← h.absolute] at ha
  simp only [Span.absolute] at ha
  omega

/-- **A field lies in one line**, so it is counted from a line in one way only. -/
theorem InLine.unique (h : InLine text a a') (h' : InLine text a b') : a' = b' := by
  obtain ⟨r, hr, hwithin, hrelative⟩ := h.line
  obtain ⟨r', hr', hwithin', hrelative'⟩ := h'.line
  cases Pattern.line_unique hr hr' (field_spec h.field).1 hwithin hwithin'
  exact Option.some.inj (hrelative.symm.trans hrelative')

/-- Two fields counted from their lines are the same only if the fields are. -/
theorem InLine.inj (h : InLine text a a') (h' : InLine text b a') : a = b :=
  h.absolute.symm.trans h'.absolute

/-! ## 2. What the program goes through -/

/-- The fields of a text counted from their lines, sorted. -/
def relatives (text : List Char) : List Span :=
  Span.sort ((Span.sort (fields text)).filterMap
    (Document.relativeToFirst (Span.sort (lines text))))

/-- The spans of a cluster of fields, counted from the beginning of the text and sorted. -/
def columnOf (cluster : List Span) : List Span := Span.sort (cluster.map Span.absolute)

/-- **The columns that the program makes are clusters of the fields counted from their lines.**
Both patterns are constants, so that reading them is evaluated, and so is looking up their tags. -/
theorem columns_eq (text : List Char) : Document.columns text =
    .ok ((Spans.clusters (relatives text)).map columnOf) := rfl

theorem inLine_iff : InLine text a a' ↔
    a ∈ fields text ∧ Document.relativeToFirst (Span.sort (lines text)) a = some a' := by
  constructor
  · intro h
    obtain ⟨r, hr, hwithin, hrelative⟩ := h.line
    have hany : (Span.sort (lines text)).any a.within = true :=
      List.any_eq_true.mpr ⟨r, Span.mem_sort.mpr hr, hwithin⟩
    obtain ⟨b, hb⟩ := Document.exists_relativeToFirst hany
    obtain ⟨first, hfind, hfirst⟩ := Option.bind_eq_some_iff.mp hb
    have hb' : InLine text a b := ⟨h.field, first,
      Span.mem_sort.mp (List.mem_of_find?_eq_some hfind), List.find?_some hfind, hfirst⟩
    exact ⟨h.field, h.unique hb' ▸ hb⟩
  · rintro ⟨hfield, h⟩
    obtain ⟨r, hfind, hrelative⟩ := Option.bind_eq_some_iff.mp h
    exact ⟨hfield, r, Span.mem_sort.mp (List.mem_of_find?_eq_some hfind), List.find?_some hfind,
      hrelative⟩

/-- **There is one span for each field in a line.** -/
theorem mem_relatives : a' ∈ relatives text ↔ ∃ a, InLine text a a' := by
  simp only [relatives, Span.mem_sort, List.mem_filterMap, inLine_iff]

theorem nodup_relatives (text : List Char) : (relatives text).Nodup := by
  have hfields : (Span.sort (fields text)).Nodup :=
    Span.nodup_sort.mpr (Pattern.nodup_fields text)
  refine Span.nodup_sort.mpr (List.pairwise_filterMap.mpr ?_)
  refine hfields.imp_of_mem fun {a b} ha hb hne a' ha' b' hb' heq => hne ?_
  have hafield : InLine text a a' := inLine_iff.mpr ⟨Span.mem_sort.mp ha, ha'⟩
  have hbfield : InLine text b b' := inLine_iff.mpr ⟨Span.mem_sort.mp hb, hb'⟩
  exact (heq ▸ hafield).inj hbfield

theorem positive_of_mem_relatives : ∀ a' ∈ relatives text, a'.start < a'.stop := by
  intro a' ha'
  obtain ⟨a, ha⟩ := mem_relatives.mp ha'
  exact ha.positive

theorem startsInOrder_relatives (text : List Char) : Spans.StartsInOrder (relatives text) :=
  Spans.startsInOrder_of_sorted (Span.sorted_sort _)

/-! ## 3. Clusters are columns -/

/-- **What is linked from a field is linked from it as counted from its line**, and the other way
round. -/
theorem linked_iff (h : InLine text a a') : Relation.ReflTransGen (Aligned text) a b ↔
    ∃ b', InLine text b b' ∧ Relation.ReflTransGen (Spans.Meeting (relatives text)) a' b' := by
  constructor
  · intro hlinked
    induction hlinked with
    | refl => exact ⟨a', h, .refl⟩
    | @tail b c _ hstep ih =>
      obtain ⟨b', hb, hlinked⟩ := ih
      obtain ⟨b'', c', hb', hc, hmeets⟩ := hstep
      cases hb.unique hb'
      exact ⟨c', hc, hlinked.tail ⟨mem_relatives.mpr ⟨b, hb⟩, mem_relatives.mpr ⟨c, hc⟩, hmeets⟩⟩
  · rintro ⟨b', hb, hlinked⟩
    rw [← h.absolute, ← hb.absolute]
    refine Relation.ReflTransGen.lift Span.absolute (fun x y hmeeting => ?_) _ _ hlinked
    obtain ⟨hx, hy, hmeets⟩ := hmeeting
    obtain ⟨c, hc⟩ := mem_relatives.mp hx
    obtain ⟨e, he⟩ := mem_relatives.mp hy
    exact ⟨x, y, hc.absolute.symm ▸ hc, he.absolute.symm ▸ he, hmeets⟩

/-- The spans of a list as a set. -/
def members (l : List Span) : Set Span := {a | a ∈ l}

variable {cluster : List Span}

theorem exists_field (hc : cluster ∈ Spans.clusters (relatives text)) (ha : a' ∈ cluster) :
    ∃ a, InLine text a a' := mem_relatives.mp (Spans.mem_of_mem_clusters hc ha)

theorem mem_columnOf : a ∈ columnOf cluster ↔ ∃ a' ∈ cluster, a'.absolute = a := by
  rw [columnOf, Span.mem_sort, List.mem_map]

/-- **A cluster with a field is the column of the field.** -/
theorem members_columnOf (hc : cluster ∈ Spans.clusters (relatives text)) (ha : a' ∈ cluster)
    (h : InLine text a a') :
    members (columnOf cluster) = {b | Relation.ReflTransGen (Aligned text) a b} := by
  ext b
  show b ∈ columnOf cluster ↔ _
  rw [mem_columnOf, Set.mem_ofPred_eq, linked_iff h]
  constructor
  · rintro ⟨b', hb', rfl⟩
    obtain ⟨b, hb⟩ := exists_field hc hb'
    exact ⟨b', hb.absolute.symm ▸ hb, Spans.linked_of_mem_cluster (startsInOrder_relatives text)
      positive_of_mem_relatives hc ha hb'⟩
  · rintro ⟨b', hb, hlinked⟩
    exact ⟨b', Spans.mem_cluster_of_linked (startsInOrder_relatives text)
      positive_of_mem_relatives hc ha hlinked, hb.absolute⟩

/-- **The clusters are the columns.** -/
theorem columnSets_eq (text : List Char) : columnSets text =
    {column | ∃ cluster ∈ Spans.clusters (relatives text), column = members (columnOf cluster)} := by
  ext column
  constructor
  · rintro ⟨a, a', h, rfl⟩
    obtain ⟨cluster, hc, ha⟩ := Spans.exists_cluster (mem_relatives.mpr ⟨a, h⟩)
    exact ⟨cluster, hc, (members_columnOf hc ha h).symm⟩
  · rintro ⟨cluster, hc, rfl⟩
    obtain ⟨a', ha⟩ := List.exists_mem_of_ne_nil _ (Spans.ne_nil_of_mem_clusters hc)
    obtain ⟨a, h⟩ := exists_field hc ha
    exact ⟨a, a', h, members_columnOf hc ha h⟩

/-- Two clusters are never one column. -/
theorem members_columnOf_inj {cluster' : List Span}
    (hc : cluster ∈ Spans.clusters (relatives text))
    (hc' : cluster' ∈ Spans.clusters (relatives text))
    (heq : members (columnOf cluster) = members (columnOf cluster')) : cluster = cluster' := by
  obtain ⟨a', ha⟩ := List.exists_mem_of_ne_nil _ (Spans.ne_nil_of_mem_clusters hc)
  obtain ⟨a, h⟩ := exists_field hc ha
  have hmem : a ∈ members (columnOf cluster') := heq ▸ mem_columnOf.mpr ⟨a', ha, h.absolute⟩
  obtain ⟨b', hb, hab⟩ := mem_columnOf.mp hmem
  obtain ⟨b, h'⟩ := exists_field hc' hb
  cases h'.absolute.symm.trans hab
  cases h.unique h'
  exact Spans.cluster_eq_of_intersects (startsInOrder_relatives text) positive_of_mem_relatives
    hc hc' ha hb (Span.intersects_self _)

/-! ## 4. The column of a text -/

/-- The columns that are found for a text, as lists. -/
def foundColumns (needle : String) (text : List Char) : List (List Span) :=
  ((Spans.clusters (relatives text)).map columnOf).filter fun column =>
    ((Pattern.literal needle.toList).spans 0 false text).any fun o =>
      column.any fun field => o.within field

theorem columnContaining_eq_match (d : Document) (needle : String) :
    d.columnContaining needle = match foundColumns needle d.text with
      | [column] => .ok column
      | found => .error (.ambiguousColumn needle found.length) := by
  unfold Document.columnContaining
  rw [columns_eq]
  simp only [bind, Except.bind]
  generalize hfound : List.filter _ _ = found
  rw [show foundColumns needle d.text = found from hfound]
  rcases found with _ | ⟨column, _ | ⟨other, others⟩⟩ <;> rfl

variable {needle : String} {column : List Span}

theorem mem_foundColumns : column ∈ foundColumns needle text ↔
    (∃ cluster ∈ Spans.clusters (relatives text), columnOf cluster = column) ∧
      ∃ a ∈ members column,
        ∃ o ∈ (Pattern.literal needle.toList).spans 0 false text, o.within a = true := by
  rw [foundColumns, List.mem_filter, List.mem_map]
  simp only [List.any_eq_true, members, Set.mem_ofPred_eq]
  refine and_congr_right fun _ => ?_
  constructor
  · rintro ⟨o, ho, a, ha, hwithin⟩
    exact ⟨a, ha, o, ho, hwithin⟩
  · rintro ⟨a, ha, o, ho, hwithin⟩
    exact ⟨o, ho, a, ha, hwithin⟩

/-- **The columns in which the text occurs are found, and no others.** -/
theorem showing_eq (needle : String) (text : List Char) :
    showing needle text = {C | C ∈ (foundColumns needle text).map members} := by
  ext C
  show C ∈ columnSets text ∧ _ ↔ C ∈ (foundColumns needle text).map members
  rw [columnSets_eq, List.mem_map]
  constructor
  · rintro ⟨⟨cluster, hc, rfl⟩, hshows⟩
    exact ⟨columnOf cluster, mem_foundColumns.mpr ⟨⟨cluster, hc, rfl⟩, hshows⟩, rfl⟩
  · rintro ⟨column, hcolumn, rfl⟩
    obtain ⟨⟨cluster, hc, rfl⟩, hshows⟩ := mem_foundColumns.mp hcolumn
    exact ⟨⟨cluster, hc, rfl⟩, hshows⟩

/-- No column is found twice. -/
theorem nodup_map_members (needle : String) (text : List Char) :
    ((foundColumns needle text).map members).Nodup := by
  have hall : (((Spans.clusters (relatives text)).map columnOf).map members).Nodup := by
    rw [List.map_map]
    exact List.Nodup.map_on (fun c hc c' hc' heq => members_columnOf_inj hc hc' heq)
      (Spans.nodup_clusters (startsInOrder_relatives text) positive_of_mem_relatives)
  exact hall.sublist (List.filter_sublist.map members)

theorem finite_showing (needle : String) (text : List Char) : (showing needle text).Finite := by
  rw [showing_eq]
  exact List.finite_toSet _

/-- **Columns are counted as they are found.** -/
theorem ncard_showing (needle : String) (text : List Char) :
    (showing needle text).ncard = (foundColumns needle text).length := by
  classical
  rw [showing_eq, ← List.coe_toFinset, Set.ncard_coe_finset,
    List.toFinset_card_of_nodup (nodup_map_members needle text), List.length_map]

/-- A column that is found is one of the columns; it is sorted, has no field twice, and its fields
have offset 0. -/
theorem foundColumns_spec (h : column ∈ foundColumns needle text) :
    members column ∈ columnSets text ∧ Span.Sorted column ∧ column.Nodup ∧
      ∀ a ∈ column, a.offset = 0 := by
  obtain ⟨⟨cluster, hc, rfl⟩, -⟩ := mem_foundColumns.mp h
  have hnodup : cluster.Nodup := by
    have hflatten := nodup_relatives text
    rw [← Spans.flatten_clusters (relatives text)] at hflatten
    exact (List.nodup_flatten.mp hflatten).1 cluster hc
  refine ⟨?_, Span.sorted_sort _, ?_, ?_⟩
  · rw [columnSets_eq]
    exact ⟨cluster, hc, rfl⟩
  · refine Span.nodup_sort.mpr (hnodup.map_on fun x hx y hy heq => ?_)
    obtain ⟨a, ha⟩ := exists_field hc hx
    obtain ⟨b, hb⟩ := exists_field hc hy
    rw [ha.absolute, hb.absolute] at heq
    exact (heq ▸ ha).unique hb
  · intro a ha
    obtain ⟨a', -, rfl⟩ := mem_columnOf.mp ha
    rfl

theorem foundColumns_of_ok {d : Document} (h : d.columnContaining needle = .ok column) :
    foundColumns needle d.text = [column] := by
  rw [columnContaining_eq_match] at h
  generalize foundColumns needle d.text = found at h ⊢
  rcases found with _ | ⟨first, _ | ⟨other, others⟩⟩
  · cases h
  · cases h
    rfl
  · cases h

/-- **The column of a text is found exactly if there is one column in which the text occurs.**
Fields are what the pattern for fields finds in an overlapped scan, in lines as the
pattern for lines has them; a column is what aligned fields link with a field; and the text is
looked for as it stands, without overlaps.  All fields of the column are given then, sorted, none
twice, and with offset 0.  Otherwise the fault tells how many such columns there are. -/
theorem columnContaining_finds_the_column (d : Document) (needle : String) :
    (showing needle d.text).Finite ∧
    ((∃ column, d.columnContaining needle = .ok column) ↔ (showing needle d.text).ncard = 1) ∧
    (∀ column, d.columnContaining needle = .ok column →
      Span.Sorted column ∧ column.Nodup ∧ (∀ a ∈ column, a.offset = 0) ∧
        showing needle d.text = {members column}) ∧
    ((showing needle d.text).ncard ≠ 1 →
      d.columnContaining needle =
        .error (.ambiguousColumn needle (showing needle d.text).ncard)) := by
  refine ⟨finite_showing needle d.text, ?_, ?_, ?_⟩
  · rw [ncard_showing]
    constructor
    · rintro ⟨column, h⟩
      rw [foundColumns_of_ok h]
      rfl
    · intro hone
      obtain ⟨column, hfound⟩ := List.length_eq_one_iff.mp hone
      exact ⟨column, by rw [columnContaining_eq_match, hfound]⟩
  · intro column h
    have hfound := foundColumns_of_ok h
    obtain ⟨-, hsorted, hnodup, hoffset⟩ :=
      foundColumns_spec (hfound ▸ List.mem_singleton_self column)
    refine ⟨hsorted, hnodup, hoffset, ?_⟩
    rw [showing_eq, hfound]
    ext C
    exact List.mem_singleton
  · rw [ncard_showing, columnContaining_eq_match]
    intro hmany
    rcases hfound : foundColumns needle d.text with _ | ⟨column, _ | ⟨other, others⟩⟩
    · rfl
    · exact absurd (by rw [hfound]; rfl) hmany
    · rfl

/-- In a table of two columns, a number is in the second, and a letter in both. -/
theorem columnContaining_finds_the_column_of_a_table :
    let d := Document.ofString "item  count\npear  3" false
    let counts : List Span := [⟨6, 11, 0, by decide⟩, ⟨18, 19, 0, by decide⟩]
    d.columnContaining "3" = .ok counts ∧ showing "3" d.text = {members counts} ∧
      d.columnContaining "t" = .error (.ambiguousColumn "t" 2) ∧
      (showing "t" d.text).ncard = 2 := by
  intro d counts
  have hcounts : d.columnContaining "3" = .ok counts := by unfold d; cbv
  have hambiguous : d.columnContaining "t" = .error (.ambiguousColumn "t" 2) := by unfold d; cbv
  obtain ⟨-, -, hfound, -⟩ := columnContaining_finds_the_column d "3"
  obtain ⟨-, hone, -, hfault⟩ := columnContaining_finds_the_column d "t"
  refine ⟨hcounts, (hfound counts hcounts).2.2.2, hambiguous, ?_⟩
  have hmany : (showing "t" d.text).ncard ≠ 1 := by
    intro hsingle
    obtain ⟨column, h⟩ := hone.mpr hsingle
    cases hambiguous.symm.trans h
  have hsame := Except.error.inj (hambiguous.symm.trans (hfault hmany))
  exact (Fault.ambiguousColumn.inj hsame).2.symm

end TaggedText.Columns
