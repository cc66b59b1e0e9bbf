/-
# Numbered nodes

The nodes of a tree are listed from the root down and from left to right, and a node's number is its
place in the list: `Tree.addTo_eq`, as each node is added when all nodes before it have been.

`Tree.At` says which part of the tree stands at a number, under which parent, and how many leaves
stand before it; **every number has such a part** (`Tree.exists_at`), and what is listed at a number
is read off it (`Tree.At.listed`).  So the list alone shows the tree: parents and children agree, and
what is below a node has the numbers right behind it (`Tree.inPreorder_entries`).
-/
import TaggedText.Proofs.Query.Tree

namespace TaggedText.Query

namespace Tree

/-! ## 1. Sizes and roots -/

theorem size_pos (t : Tree) : 0 < t.size := by
  cases t with
  | leaf l => exact Nat.one_pos
  | node connective parts =>
    rw [size]
    omega

theorem sizes_append : ∀ left right : List Tree,
    sizes (left ++ right) = sizes left + sizes right
  | [], right => by simp [sizes]
  | t :: left, right => by simp [sizes, sizes_append left right, Nat.add_assoc]

theorem length_roots : ∀ (number : Nat) (parts : List Tree),
    (roots number parts).length = parts.length
  | _, [] => rfl
  | number, t :: rest => by rw [roots, List.length_cons, length_roots, List.length_cons]

/-- **The root of a tree comes right behind the trees before it.** -/
theorem mem_roots {j : Nat} : ∀ {number : Nat} {parts : List Tree},
    j ∈ roots number parts ↔
      ∃ before t after, parts = before ++ t :: after ∧ j = number + sizes before
  | number, [] => by simp [roots]
  | number, t :: rest => by
    rw [roots, List.mem_cons, mem_roots]
    constructor
    · rintro (rfl | ⟨before, s, after, rfl, rfl⟩)
      · exact ⟨[], t, rest, rfl, rfl⟩
      · exact ⟨t :: before, s, after, rfl, by rw [sizes, Nat.add_assoc]⟩
    · rintro ⟨_ | ⟨_, before⟩, s, after, hparts, rfl⟩
      · exact .inl rfl
      · obtain ⟨rfl, rfl⟩ := List.cons.inj hparts
        exact .inr ⟨before, s, after, rfl, by rw [sizes, Nat.add_assoc]⟩

theorem pairwise_roots : ∀ (number : Nat) (parts : List Tree),
    (roots number parts).Pairwise (· < ·)
  | _, [] => .nil
  | number, t :: rest => by
    refine List.pairwise_cons.mpr ⟨fun j hj => ?_, pairwise_roots _ rest⟩
    obtain ⟨before, _, _, -, rfl⟩ := mem_roots.mp hj
    have := t.size_pos
    omega

/-- The trees that follow each other take up all numbers. -/
theorem exists_part (j : Nat) : ∀ (number : Nat) (parts : List Tree), number ≤ j →
    j < number + sizes parts →
    ∃ before t after, parts = before ++ t :: after ∧
      number + sizes before ≤ j ∧ j < number + sizes before + t.size
  | number, [], hle, hlt => by
    rw [sizes] at hlt
    omega
  | number, t :: rest, hle, hlt => by
    by_cases hfirst : j < number + t.size
    · exact ⟨[], t, rest, rfl, hle, hfirst⟩
    · rw [sizes] at hlt
      obtain ⟨before, s, after, rfl, hle', hlt'⟩ :=
        exists_part j (number + t.size) rest (by omega) (by omega)
      refine ⟨t :: before, s, after, rfl, ?_, ?_⟩
      · rw [sizes]
        omega
      · rw [sizes]
        omega

/-! ## 2. Lists of nodes -/

mutual

theorem length_entriesFrom : ∀ (number : Nat) (parent : Option Nat) (depth : Nat) (t : Tree),
    (t.entriesFrom number parent depth).length = t.size
  | _, _, _, leaf _ => rfl
  | number, _, depth, node _ parts => by
    rw [entriesFrom, List.length_cons, size, Nat.add_comm,
      length_partEntries (number + 1) number (depth + 1) parts]

theorem length_partEntries : ∀ (number parent depth : Nat) (parts : List Tree),
    (partEntries number parent depth parts).length = sizes parts
  | _, _, _, [] => rfl
  | number, parent, depth, t :: rest => by
    rw [partEntries, List.length_append, sizes, length_entriesFrom number (some parent) depth t,
      length_partEntries (number + t.size) parent depth rest]

end

theorem length_entries (t : Tree) : t.entries.length = t.size := length_entriesFrom 0 none 0 t

theorem partEntries_append (parent depth : Nat) : ∀ (number : Nat) (left right : List Tree),
    partEntries number parent depth (left ++ right) =
      partEntries number parent depth left ++
        partEntries (number + sizes left) parent depth right
  | number, [], right => rfl
  | number, t :: left, right => by
    rw [List.cons_append, partEntries, partEntries, partEntries_append parent depth _ left right,
      List.append_assoc, sizes, Nat.add_assoc]

theorem modify_at {α : Type} (f : α → α) (x : α) (back : List α) : ∀ front : List α,
    (front ++ x :: back).modify front.length f = front ++ f x :: back
  | [] => rfl
  | y :: front => by
    rw [List.cons_append, List.length_cons, List.modify_succ_cons, modify_at f x back front,
      List.cons_append]

mutual

/-- **Adding a tree's nodes one by one lists them**: when a tree is added, its root has the number
it is listed under. -/
theorem addTo_eq : ∀ (nodes : List Entry) (parent : Option Nat) (depth : Nat) (t : Tree),
    t.addTo nodes parent depth = nodes ++ t.entriesFrom nodes.length parent depth
  | _, _, _, leaf _ => rfl
  | nodes, parent, depth, node connective parts => by
    have h := addPartsTo_eq nodes ⟨.inr connective, parent, [], depth⟩ [] (depth + 1) parts
    rw [addTo, h, entriesFrom]
    rfl

/-- The parent stands between what was before it and what has been added below it so far. -/
theorem addPartsTo_eq : ∀ (before : List Entry) (above : Entry) (below : List Entry) (depth : Nat)
    (parts : List Tree),
    addPartsTo (before ++ above :: below) before.length depth parts =
      before ++
        { above with
          children := above.children ++ roots (before.length + 1 + below.length) parts } ::
        (below ++ partEntries (before.length + 1 + below.length) before.length depth parts)
  | before, above, below, depth, [] => by simp [addPartsTo, roots, partEntries]
  | before, above, below, depth, t :: rest => by
    have hnumber : (before ++ above :: below).length = before.length + 1 + below.length := by
      simp only [List.length_append, List.length_cons]
      omega
    rw [addPartsTo, addTo_eq (before ++ above :: below) (some before.length) depth t, hnumber,
      List.append_assoc, List.cons_append, modify_at, addPartsTo_eq before _ _ depth rest]
    simp only [Entry.adopt, roots, partEntries, List.length_append, length_entriesFrom,
      List.append_assoc, List.singleton_append, Nat.add_assoc]

end

/-- The leaves among listed nodes. -/
def listedLeaves (entries : List Entry) : List Leaf := entries.filterMap fun e => e.content.getLeft?

theorem listedLeaves_append (left right : List Entry) :
    listedLeaves (left ++ right) = listedLeaves left ++ listedLeaves right :=
  List.filterMap_append

mutual

/-- **A tree's leaves are listed in their order.** -/
theorem listedLeaves_entriesFrom : ∀ (number : Nat) (parent : Option Nat) (depth : Nat) (t : Tree),
    listedLeaves (t.entriesFrom number parent depth) = t.leaves
  | _, _, _, leaf _ => rfl
  | number, _, depth, node _ parts =>
    listedLeaves_partEntries (number + 1) number (depth + 1) parts

theorem listedLeaves_partEntries : ∀ (number parent depth : Nat) (parts : List Tree),
    listedLeaves (partEntries number parent depth parts) = leavesIn parts
  | _, _, _, [] => rfl
  | number, parent, depth, t :: rest => by
    rw [partEntries, listedLeaves_append, leavesIn,
      listedLeaves_entriesFrom number (some parent) depth t,
      listedLeaves_partEntries (number + t.size) parent depth rest]

end

/-! ## 3. The part at a number -/

/-- What is listed of a tree's root. -/
def entry (number : Nat) (parent : Option Nat) (depth : Nat) : Tree → Entry
  | leaf l => ⟨.inl l, parent, [], depth⟩
  | node connective parts => ⟨.inr connective, parent, roots (number + 1) parts, depth⟩

/-- The part `s` of `t` has this number and this parent, and so many leaves stand before it. -/
inductive At (t : Tree) : Nat → Option Nat → Nat → Tree → Prop
  | root : At t 0 none 0 t
  | part {i k : Nat} {parent : Option Nat} {connective : Connective} {before after : List Tree}
      {s : Tree} (above : At t i parent k (node connective (before ++ s :: after))) :
      At t (i + 1 + sizes before) (some i) (k + (leavesIn before).length) s

section At

variable {t s : Tree} {i j k : Nat} {parent : Option Nat} {e : Entry}

theorem entriesFrom_eq_cons (number : Nat) (parent : Option Nat) (depth : Nat) (t : Tree) :
    ∃ rest, t.entriesFrom number parent depth = t.entry number parent depth :: rest := by
  cases t with
  | leaf l => exact ⟨[], rfl⟩
  | node connective parts => exact ⟨_, rfl⟩

/-- **A part is listed in one piece**, behind what stands before it. -/
theorem At.split (h : At t i parent k s) : ∃ depth front back,
    t.entries = front ++ s.entriesFrom i parent depth ++ back ∧
      front.length = i ∧ (listedLeaves front).length = k := by
  induction h with
  | root => exact ⟨0, [], [], by simp [entries], rfl, rfl⟩
  | @part i k parent connective before after s _ ih =>
    obtain ⟨depth, front, back, hall, hlength, hleaves⟩ := ih
    refine ⟨depth + 1, front ++
      (node connective (before ++ s :: after)).entry i parent depth ::
        partEntries (i + 1) i (depth + 1) before,
      partEntries (i + 1 + sizes before + s.size) i (depth + 1) after ++ back, ?_, ?_, ?_⟩
    · rw [hall, entriesFrom, partEntries_append, partEntries]
      simp [entry]
    · simp only [List.length_append, List.length_cons, length_partEntries, hlength]
      omega
    · have hroot : listedLeaves [(node connective (before ++ s :: after)).entry i parent depth] =
          [] := rfl
      rw [listedLeaves_append, ← List.singleton_append, listedLeaves_append, hroot,
        listedLeaves_partEntries, List.nil_append, List.length_append, hleaves]

theorem At.take (h : At t i parent k s) : (listedLeaves (t.entries.take i)).length = k := by
  obtain ⟨depth, front, back, hall, hlength, hleaves⟩ := h.split
  rw [hall, List.append_assoc, ← hlength, List.take_left, hleaves]

theorem At.listed (h : At t i parent k s) :
    ∃ depth, t.entries[i]? = some (s.entry i parent depth) := by
  obtain ⟨depth, front, back, hall, hlength, -⟩ := h.split
  obtain ⟨rest, hrest⟩ := s.entriesFrom_eq_cons i parent depth
  refine ⟨depth, ?_⟩
  rw [hall, hrest, List.append_assoc, List.getElem?_append_right (Nat.le_of_eq hlength), hlength]
  simp

/-! ## 4. What is below a node -/

/-- The node is above the other one, or the same, going from children to parents. -/
inductive Below (entries : List Entry) (i : Nat) : Nat → Prop
  | itself : Below entries i i
  | child {j k : Nat} {e : Entry} (below : Below entries i j) (listed : entries[k]? = some e)
      (parent : e.parent = some j) : Below entries i k

theorem Below.trans {entries : List Entry} (h : Below entries i j) (h' : Below entries j k) :
    Below entries i k := by
  induction h' with
  | itself => exact h
  | child _ listed parent ih => exact .child ih listed parent

/-- **The numbers from a part's own on, as many as it has nodes, are those of what is below it.** -/
theorem At.reaches : ∀ {s : Tree} {i k : Nat} {parent : Option Nat}, At t i parent k s →
    ∀ j, i ≤ j → j < i + s.size →
      Below t.entries i j ∧ ∃ parent' k' s', At t j parent' k' s' := by
  intro s
  induction s using Tree.induct with
  | hleaf l =>
    intro i k parent h j hle hlt
    rw [size] at hlt
    obtain rfl : j = i := by omega
    exact ⟨.itself, _, _, _, h⟩
  | hnode connective parts ih =>
    intro i k parent h j hle hlt
    rw [size] at hlt
    by_cases hroot : j = i
    · subst hroot
      exact ⟨.itself, _, _, _, h⟩
    · obtain ⟨before, s, after, rfl, hle', hlt'⟩ :=
        exists_part j (i + 1) parts (by omega) (by omega)
      have hpart := At.part h
      obtain ⟨_, hlisted⟩ := hpart.listed
      obtain ⟨hbelow, hat⟩ := ih s (by simp) hpart j hle' hlt'
      have hchild : Below t.entries i (i + 1 + sizes before) :=
        .child .itself hlisted (by cases s <;> rfl)
      exact ⟨hchild.trans hbelow, hat⟩

/-- **Every listed node is the root of a part.** -/
theorem exists_at (h : t.entries[i]? = some e) :
    ∃ parent k s depth, At t i parent k s ∧ e = s.entry i parent depth := by
  obtain ⟨hlt, -⟩ := List.getElem?_eq_some_iff.mp h
  rw [length_entries] at hlt
  obtain ⟨-, parent, k, s, hat⟩ := (At.root (t := t)).reaches i (Nat.zero_le i) (by omega)
  obtain ⟨depth, hlisted⟩ := hat.listed
  rw [h] at hlisted
  exact ⟨parent, k, s, depth, hat, Option.some_inj.mp hlisted⟩

/-- **Children and parents agree.** -/
theorem mem_children_iff (t : Tree) (i j : Nat) :
    (∃ e, t.entries[i]? = some e ∧ j ∈ e.children) ↔
      ∃ e, t.entries[j]? = some e ∧ e.parent = some i := by
  constructor
  · rintro ⟨e, hlisted, hj⟩
    obtain ⟨parent, k, s, depth, hat, rfl⟩ := exists_at hlisted
    cases s with
    | leaf l => cases hj
    | node connective parts =>
      obtain ⟨before, s, after, rfl, rfl⟩ := mem_roots.mp hj
      obtain ⟨_, hpart⟩ := (At.part hat).listed
      exact ⟨_, hpart, by cases s <;> rfl⟩
  · rintro ⟨e, hlisted, hparent⟩
    obtain ⟨parent, k, s, depth, hat, rfl⟩ := exists_at hlisted
    obtain rfl : parent = some i := by cases s <;> exact hparent
    cases hat with
    | part above =>
      obtain ⟨_, habove⟩ := above.listed
      exact ⟨_, habove, mem_roots.mpr ⟨_, _, _, rfl, rfl⟩⟩

/-- What is below a part lies in it as a whole. -/
theorem Below.inside (h : At t i parent k s) (hbelow : Below t.entries i j) :
    ∃ parent' k' s', At t j parent' k' s' ∧ i ≤ j ∧ j + s'.size ≤ i + s.size := by
  induction hbelow with
  | itself => exact ⟨parent, k, s, h, Nat.le_refl i, Nat.le_refl _⟩
  | @child j j' e _ listed hparent ih =>
    obtain ⟨_, _, s', hat, hle, hstop⟩ := ih
    obtain ⟨_, hlisted⟩ := hat.listed
    obtain ⟨e', hlisted', hj'⟩ := (mem_children_iff t j j').mpr ⟨e, listed, hparent⟩
    obtain rfl := Option.some_inj.mp (hlisted.symm.trans hlisted')
    cases s' with
    | leaf l => cases hj'
    | node connective parts =>
      obtain ⟨before, u, after, rfl, rfl⟩ := mem_roots.mp hj'
      refine ⟨_, _, u, .part hat, by omega, ?_⟩
      rw [size, sizes_append, sizes] at hstop
      omega

end At

/-- **The numbers of listed nodes go from the root down and from left to right**: a node comes before
its children, these are in increasing order, parents and children agree, and the numbers of what is
below a node are those from its own on up to some stop. -/
structure InPreorder (entries : List Entry) : Prop where
  nonempty : 0 < entries.length
  root : ∀ (i : Nat) (e : Entry), entries[i]? = some e → (e.parent = none ↔ i = 0)
  parent_lt : ∀ (i : Nat) (e : Entry) (parent : Nat), entries[i]? = some e → e.parent = some parent → parent < i
  increasing : ∀ (i : Nat) (e : Entry), entries[i]? = some e → e.children.Pairwise (· < ·)
  agree : ∀ i j : Nat, (∃ e : Entry, entries[i]? = some e ∧ j ∈ e.children) ↔
    ∃ e : Entry, entries[j]? = some e ∧ e.parent = some i
  range : ∀ i < entries.length, ∃ stop, ∀ j, Below entries i j ↔ i ≤ j ∧ j < stop

theorem inPreorder_entries (t : Tree) : InPreorder t.entries where
  nonempty := by
    rw [length_entries]
    exact t.size_pos
  root i e hlisted := by
    obtain ⟨parent, k, s, depth, hat, rfl⟩ := exists_at hlisted
    have hparent : (s.entry i parent depth).parent = parent := by cases s <;> rfl
    rw [hparent]
    cases hat with
    | root => simp
    | part _ =>
      constructor
      · intro h
        cases h
      · intro h
        omega
  parent_lt i e p hlisted hp := by
    obtain ⟨parent, k, s, depth, hat, rfl⟩ := exists_at hlisted
    obtain rfl : parent = some p := by cases s <;> exact hp
    cases hat with
    | part _ => omega
  increasing i e hlisted := by
    obtain ⟨parent, k, s, depth, -, rfl⟩ := exists_at hlisted
    cases s with
    | leaf l => exact .nil
    | node connective parts => exact pairwise_roots (i + 1) parts
  agree := mem_children_iff t
  range i hi := by
    obtain ⟨parent, k, s, -, hat, -⟩ := exists_at (List.getElem?_eq_getElem hi)
    refine ⟨i + s.size, fun j => ⟨fun hbelow => ?_, fun ⟨hle, hlt⟩ => (hat.reaches j hle hlt).1⟩⟩
    obtain ⟨_, _, s', -, hle, hstop⟩ := hbelow.inside hat
    have := s'.size_pos
    omega

end Tree

end TaggedText.Query
