/-
# Named lists of spans

The tags of a text: names with the spans they stand for, in the order of the names.  Names are
compared character by character.  The main statements say what looking up a name gives after a list
was put under a name or taken away, and that both keep the order.
-/
import TaggedText.Spans.Search

namespace TaggedText

/-- Names with lists of spans. -/
abbrev Tags := List (String × List Span)

namespace Tags

/-- The spans of a tag, `none` for a tag that does not exist. -/
def get? (tags : Tags) (name : String) : Option (List Span) := tags.lookup name

/-- The tags with a list put under a name, in place of the one that may be there. -/
def put (name : String) (spans : List Span) : Tags → Tags
  | [] => [(name, spans)]
  | (first, held) :: rest =>
    if name < first then (name, spans) :: (first, held) :: rest
    else if name = first then (name, spans) :: rest
    else (first, held) :: put name spans rest

/-- The tags without the one of a name. -/
def erase (tags : Tags) (name : String) : Tags := tags.filter fun entry => entry.1 != name

/-- **The list put under a name is found there.** -/
theorem get?_put (name : String) (spans : List Span) (tags : Tags) :
    (put name spans tags).get? name = some spans := by
  induction tags with
  | nil => simp [put, get?]
  | cons entry rest ih =>
    obtain ⟨first, held⟩ := entry
    unfold put
    split
    · simp [get?]
    split
    · simp [get?]
    · rename_i h
      have : (name == first) = false := by simpa using h
      simpa [get?, List.lookup_cons, this] using ih

/-- **Other names are found as before.** -/
theorem get?_put_of_ne {name other : String} (h : other ≠ name) (spans : List Span)
    (tags : Tags) : (put name spans tags).get? other = tags.get? other := by
  have ho : (other == name) = false := by simpa using h
  induction tags with
  | nil => simp [put, get?, List.lookup_cons, ho]
  | cons entry rest ih =>
    obtain ⟨first, held⟩ := entry
    unfold put
    split
    · simp [get?, List.lookup_cons, ho]
    split
    · rename_i hn
      subst hn
      simp [get?, List.lookup_cons, ho]
    · unfold get? at ih ⊢
      simp only [List.lookup_cons]
      split
      · rfl
      · exact ih

/-- A name that was taken away is not found. -/
theorem get?_erase (tags : Tags) (name : String) : (tags.erase name).get? name = none := by
  induction tags with
  | nil => rfl
  | cons entry rest ih =>
    obtain ⟨first, held⟩ := entry
    unfold erase get? at *
    by_cases h : first = name
    · simpa [h] using ih
    · have : (name == first) = false := by simpa using Ne.symm h
      simpa [h, List.lookup_cons, this] using ih

/-- **Other names are found as before** when a name was taken away. -/
theorem get?_erase_of_ne {name other : String} (h : other ≠ name) (tags : Tags) :
    (tags.erase name).get? other = tags.get? other := by
  induction tags with
  | nil => rfl
  | cons entry rest ih =>
    obtain ⟨first, held⟩ := entry
    unfold erase get? at *
    by_cases hfirst : first = name
    · have : (other == first) = false := by simpa [hfirst] using h
      simpa [hfirst, List.lookup_cons, beq_false_of_ne h] using ih
    · simp [hfirst, List.lookup_cons, ih]

end Tags

end TaggedText
