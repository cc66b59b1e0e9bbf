/-
# What is asked of engines

What an engine makes of patterns is asked for matches only, and what follows relies on little: **a
match starts at a place of the text, and the bounds of its groups are in order and lie in the text**
(`Finder.Lawful`).  Which notation is understood, and which match it is that is found, is left open.

An overlapped scan goes on from a place of the text then, so that this holds of all matches
(`Finder.Lawful.bounded_of_mem_matches`).  The engine of this library keeps the promise, which is an
instance of `LawfulEngine`.
-/
import TaggedText.Pattern.Compile
import TaggedText.Proofs.Pattern.Bounds
import TaggedText.Proofs.Pattern.Ways

namespace TaggedText.Pattern

variable {text : List Char} {found : Match}

/-! ## 1. Promises -/

/-- A place of a text. -/
def Place.IsOf (text : List Char) (p : Place) : Prop :=
  ∃ front back, text = front ++ back ∧ p = .between front back

/-- The bounds of the groups of a match are in order and lie in the text. -/
def Match.Bounded (text : List Char) (found : Match) : Prop :=
  ∀ group start stop, found.bounds? group = some (start, stop) →
    start ≤ stop ∧ stop ≤ Text.width text

/-- Matches lie in the text: asked for from one of its places on, a match starts at one of them, and
the bounds of all matches are in order and lie in the text. -/
structure Finder.Lawful (f : Finder) : Prop where
  place {text : List Char} {p : Place} {found : Match} : p.IsOf text →
    f.find? text p = some found → found.first.IsOf text
  find {text : List Char} {p : Place} {found : Match} : p.IsOf text →
    f.find? text p = some found → found.Bounded text
  findAll {text : List Char} {found : Match} : found ∈ f.findAll text → found.Bounded text

/-- What is made of a pattern, or of a text that stands for itself, finds matches that lie in the
text. -/
class LawfulEngine [Engine] : Prop where
  compile {source : List Char} {f : Finder} : Engine.compile? source = some f → f.Lawful
  literal {text : List Char} {f : Finder} : Engine.literal? text = some f → f.Lawful

/-! ## 2. Scans -/

theorem Place.isOf_start (text : List Char) : (Place.start text).IsOf text :=
  ⟨[], text, rfl, rfl⟩

/-- Behind the next character there is a place of the text. -/
theorem Place.IsOf.next? {p later : Place} (h : p.IsOf text) (hnext : p.next? = some later) :
    later.IsOf text := by
  obtain ⟨front, back, htext, rfl⟩ := h
  cases back with
  | nil => cases hnext
  | cons c back =>
    rw [next?_between] at hnext
    cases hnext
    exact ⟨front ++ [c], back, by rw [htext, List.append_assoc]; rfl, rfl⟩

theorem Finder.Lawful.bounded_of_mem_scanFrom {f : Finder} (h : f.Lawful) {fuel : Nat} {p : Place}
    (hp : p.IsOf text) (hfound : found ∈ scanFrom (f.find? text) fuel p) : found.Bounded text := by
  induction fuel generalizing p with
  | zero => cases hfound
  | succ fuel ih =>
    unfold scanFrom at hfound
    split at hfound
    · cases hfound
    · next earliest hearliest =>
      have hfirst : earliest.Bounded text := h.find hp hearliest
      split at hfound
      · cases List.mem_singleton.mp hfound
        exact hfirst
      · next later hlater =>
        rcases List.mem_cons.mp hfound with rfl | hfound
        · exact hfirst
        · exact ih ((h.place hp hearliest).next? hlater) hfound

/-- **The bounds of every group of every match are in order and lie in the text.** -/
theorem Finder.Lawful.bounded_of_mem_matches {f : Finder} (h : f.Lawful) {overlapped : Bool}
    (hfound : found ∈ f.matches overlapped text) : found.Bounded text := by
  unfold Finder.matches at hfound
  split at hfound
  · exact h.bounded_of_mem_scanFrom (Place.isOf_start text) hfound
  · exact h.findAll hfound

/-! ## 3. The engine of this library -/

theorem Place.IsOf.total_eq {p : Place} (h : p.IsOf text) : p.total = Text.width text := by
  obtain ⟨front, back, rfl, rfl⟩ := h
  exact (Text.width_append front back).symm

theorem Match.Ordered.bounded (h : found.Ordered (Text.width text)) : found.Bounded text :=
  fun _ _ _ => h.bounds

/-- **What a pattern finds lies in the text.** -/
theorem finder_lawful (p : Pattern) : p.finder.Lawful where
  place hp hfound := by
    obtain ⟨front, back, rfl, rfl⟩ := hp
    obtain ⟨q, hq, hfound⟩ :=
      List.exists_of_findSome?_eq_some ((p.matcher.find?_eq front back).symm.trans hfound)
    obtain ⟨passed, rest, rfl, rfl⟩ := mem_placesFrom.mp hq
    rw [Matcher.first_of_matchAt? hfound]
    exact ⟨front ++ passed, rest, (List.append_assoc front passed rest).symm, rfl⟩
  find hp hfound := (hp.total_eq ▸ Matcher.find?_ordered hfound).bounded
  findAll hfound := ((Place.isOf_start _).total_eq ▸ Matcher.plainFrom_ordered hfound).bounded

instance : LawfulEngine where
  compile h := by
    obtain ⟨p, -, rfl⟩ := Option.map_eq_some_iff.mp h
    exact finder_lawful p
  literal h := by
    cases h
    exact finder_lawful _

end TaggedText.Pattern
