/-
# Where matches lie

A search never goes back: the place it has got to is further on in the same text, and a group that
it passes ends where it starts or behind (`Progress.Ahead`).  Every kind of matcher keeps this, the
rounds of a loop among them, so it holds of whatever a search hands to its continuation
(`Matcher.run_ahead`), and of the matches that are found: **the bounds of every group are in order
and lie in the text** (`Match.Ordered`).
-/
import TaggedText.Pattern.Scan
import TaggedText.Text.Units

namespace TaggedText.Pattern

/-! ## 1. Moving forward -/

/-- The width of the text that a place is in. -/
def Place.total (p : Place) : Nat := p.position + Text.width p.after

/-- One state of a search is ahead of another: it is further on in the same text, and the bounds of
the groups passed in between are in order and not behind it. -/
structure Progress.Ahead (s t : Progress) : Prop where
  place : s.place.position ≤ t.place.position
  total : t.place.total = s.place.total
  groups : ∀ g ∈ t.groups, g ∈ s.groups ∨ g.2.1 ≤ g.2.2 ∧ g.2.2 ≤ t.place.position

namespace Progress

variable {s t u : Progress}

theorem Ahead.refl (s : Progress) : s.Ahead s := ⟨Nat.le_refl _, rfl, fun _ => .inl⟩

theorem Ahead.trans (hst : s.Ahead t) (htu : t.Ahead u) : s.Ahead u where
  place := Nat.le_trans hst.place htu.place
  total := htu.total.trans hst.total
  groups g hg := by
    rcases htu.groups g hg with hg | hg
    · rcases hst.groups g hg with hg | ⟨horder, hstop⟩
      · exact .inl hg
      · exact .inr ⟨horder, Nat.le_trans hstop htu.place⟩
    · exact .inr hg

/-- A group is passed from where the search was to where it has got. -/
theorem Ahead.group (h : s.Ahead t) (index : Nat) :
    s.Ahead { t with groups := (index, s.place.position, t.place.position) :: t.groups } where
  place := h.place
  total := h.total
  groups g hg := by
    rcases List.mem_cons.mp hg with rfl | hg
    · exact .inr ⟨h.place, Nat.le_refl _⟩
    · exact h.groups g hg

/-- A character is taken. -/
theorem ahead_take {c : Char} {rest : List Char} (h : s.place.after = c :: rest) :
    s.Ahead { s with place := ⟨s.place.position + c.utf8Size, some c, rest⟩, passed := [] } where
  place := Nat.le_add_right _ _
  total := by
    simp only [Place.total, h, Text.width_cons]
    omega
  groups _ := .inl

end Progress

/-! ## 2. Matchers -/

/-- **Rounds of a loop move forward** if one round does. -/
theorem roundsOf_ahead {greedy : Bool} {round : Progress → Continuation → Option Progress}
    {r : Progress} (hround : ∀ {s k}, round s k = some r → ∃ t, s.Ahead t ∧ k t = some r)
    {k : Continuation} {fuel : Nat} {s : Progress} (h : roundsOf greedy round k fuel s = some r) :
    ∃ t, s.Ahead t ∧ k t = some r := by
  induction fuel generalizing s with
  | zero => cases h
  | succ fuel ih =>
    unfold roundsOf at h
    obtain ⟨t, ht, h⟩ := hround h
    -- the search goes on behind the round, or with another one
    have hend : k t = some r ∨ roundsOf greedy round k fuel t = some r := by
      split at h
      · split at h
        · exact (Option.or_eq_some_iff.mp h).elim .inr fun h => .inl h.2
        · exact (Option.or_eq_some_iff.mp h).elim .inl fun h => .inr h.2
      · exact .inl h
    rcases hend with hend | hend
    · exact ⟨t, ht, hend⟩
    · obtain ⟨u, hu, hend⟩ := ih hend
      exact ⟨u, ht.trans hu, hend⟩

/-- **A matcher moves forward**: the search goes on in a state ahead of the one it began in. -/
theorem Matcher.run_ahead {m : Matcher} {s : Progress} {k : Continuation} {r : Progress}
    (h : m.run s k = some r) : ∃ t, s.Ahead t ∧ k t = some r := by
  induction m generalizing s k with
  | empty => exact ⟨s, .refl s, h⟩
  | one set =>
    unfold run at h
    split at h
    · cases h
    · next c rest hafter =>
      split at h
      · exact ⟨_, Progress.ahead_take hafter, h⟩
      · cases h
  | anchor a =>
    unfold run at h
    split at h
    · exact ⟨s, .refl s, h⟩
    · cases h
  | seq m n ihm ihn =>
    obtain ⟨t, ht, h⟩ := ihm h
    obtain ⟨u, hu, h⟩ := ihn h
    exact ⟨u, ht.trans hu, h⟩
  | choice m n ihm ihn =>
    unfold run at h
    rcases Option.or_eq_some_iff.mp h with h | ⟨-, h⟩
    · exact ihm h
    · exact ihn h
  | loop greedy round ih => exact roundsOf_ahead ih h
  | group index m ih =>
    obtain ⟨t, ht, h⟩ := ih h
    exact ⟨_, ht.group index, h⟩
  | checkpoint id =>
    unfold run at h
    split at h
    · cases h
    · exact ⟨{ s with passed := id :: s.passed }, ⟨Nat.le_refl _, rfl, fun _ => .inl⟩, h⟩

/-! ## 3. Matches -/

/-- A match in a text of some width: its bounds and those of its groups are in order and lie in the
text. -/
structure Match.Ordered (width : Nat) (found : Match) : Prop where
  first : found.first.total = width
  last : found.last.total = width
  place : found.first.position ≤ found.last.position
  groups : ∀ g ∈ found.groups, g.2.1 ≤ g.2.2 ∧ g.2.2 ≤ found.last.position

variable {m : Matcher} {p : Place} {found : Match}

theorem Match.Ordered.bounds {width group start stop : Nat} (h : found.Ordered width)
    (hbounds : found.bounds? group = some (start, stop)) : start ≤ stop ∧ stop ≤ width := by
  have hlast : found.last.position ≤ width := by
    rw [← h.last]
    exact Nat.le_add_right _ _
  unfold Match.bounds? at hbounds
  split at hbounds
  · cases hbounds
    exact ⟨h.place, hlast⟩
  · obtain ⟨front, back, hgroups, -⟩ := List.lookup_eq_some_iff.mp hbounds
    obtain ⟨hle, hstop⟩ := h.groups (group, start, stop) (by simp [hgroups])
    exact ⟨hle, Nat.le_trans hstop hlast⟩

theorem Matcher.matchAt?_ordered (h : m.matchAt? p = some found) : found.Ordered p.total := by
  obtain ⟨s, hrun, rfl⟩ := Option.map_eq_some_iff.mp h
  obtain ⟨t, ht, hend⟩ := run_ahead hrun
  cases hend
  exact ⟨rfl, ht.total, ht.place, fun g hg => (ht.groups g hg).resolve_left List.not_mem_nil⟩

theorem Matcher.find?_ordered (h : m.find? p = some found) : found.Ordered p.total := by
  obtain ⟨position, before, after⟩ := p
  unfold find? at h
  simp only at h
  induction after generalizing position before with
  | nil => exact matchAt?_ordered h
  | cons c rest ih =>
    unfold findAfter? at h
    split at h
    · next hfound =>
      cases h
      exact matchAt?_ordered hfound
    · have hordered := ih _ _ h
      simp only [Place.total, Text.width_cons, ← Nat.add_assoc] at hordered ⊢
      exact hordered

theorem Place.total_next? {p later : Place} (h : p.next? = some later) :
    later.total = p.total := by
  unfold next? at h
  split at h
  · cases h
  · next hafter =>
    cases h
    simp only [total, hafter, Text.width_cons, Nat.add_assoc]

theorem Matcher.plainFrom_ordered {fuel : Nat} {stopped : Option Nat}
    (h : found ∈ m.plainFrom fuel p stopped) : found.Ordered p.total := by
  induction fuel generalizing p stopped with
  | zero => cases h
  | succ fuel ih =>
    unfold plainFrom at h
    split at h
    · cases h
    · next earliest hearliest =>
      have hfirst := find?_ordered hearliest
      split at h
      · split at h
        · cases h
        · next later hlater =>
          obtain ⟨place, hplace, hlater⟩ := Option.bind_eq_some_iff.mp hlater
          have hsecond := find?_ordered hlater
          rw [Place.total_next? hplace] at hsecond
          rcases List.mem_cons.mp h with rfl | h
          · exact hsecond
          · exact hsecond.last ▸ ih h
      · rcases List.mem_cons.mp h with rfl | h
        · exact hfirst
        · exact hfirst.last ▸ ih h

end TaggedText.Pattern
