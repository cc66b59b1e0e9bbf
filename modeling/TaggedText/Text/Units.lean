/-
# Positions in a text

A position counts the bytes before it in the UTF-8 form of the text.  Not every number is a
position: one inside a character or past the end is none.  This module has the width of a text in
bytes, the two parts of a text at a position, and the pieces between two positions.  Its main
statements say that **splitting at a position loses nothing and puts exactly that many bytes in
front**, and that the width of a first part is always a position.
-/

namespace TaggedText.Text

/-! ## 1. Width -/

/-- The number of bytes of a text. -/
def width : List Char → Nat
  | [] => 0
  | c :: rest => c.utf8Size + width rest

@[simp] theorem width_nil : width [] = 0 := rfl

@[simp] theorem width_cons (c : Char) (rest : List Char) :
    width (c :: rest) = c.utf8Size + width rest := rfl

@[simp] theorem width_append (a b : List Char) : width (a ++ b) = width a + width b := by
  induction a with
  | nil => simp
  | cons c a ih => simp [ih, Nat.add_assoc]

/-! ## 2. Splitting at a position -/

/-- The text before and after a position, `none` for a number that is no position of the text. -/
def splitAt? : List Char → Nat → Option (List Char × List Char)
  | text, 0 => some ([], text)
  | [], _ + 1 => none
  | c :: rest, n + 1 =>
    if c.utf8Size ≤ n + 1 then
      (splitAt? rest (n + 1 - c.utf8Size)).map fun (front, back) => (c :: front, back)
    else none

/-- The number is a position of the text. -/
def isBoundary (text : List Char) (n : Nat) : Bool := (splitAt? text n).isSome

@[simp] theorem splitAt?_zero (text : List Char) : splitAt? text 0 = some ([], text) := by
  cases text <;> rfl

/-- **Nothing is lost at a split, and the front part has the width asked for.** -/
theorem splitAt?_eq_some {text front back : List Char} {n : Nat}
    (h : splitAt? text n = some (front, back)) : text = front ++ back ∧ width front = n := by
  induction text generalizing n front with
  | nil =>
    cases n with
    | zero => simp [splitAt?] at h; simp [h]
    | succ n => simp [splitAt?] at h
  | cons c rest ih =>
    cases n with
    | zero => simp [splitAt?] at h; simp [h]
    | succ n =>
      unfold splitAt? at h
      split at h
      · rename_i hle
        obtain ⟨⟨f, b⟩, hfb, heq⟩ := Option.map_eq_some_iff.1 h
        obtain ⟨rfl, rfl⟩ := Prod.mk.inj heq
        obtain ⟨h₁, h₂⟩ := ih hfb
        exact ⟨by rw [h₁]; rfl, by rw [width_cons, h₂]; omega⟩
      · simp at h

/-- **The width of a first part is a position.** -/
theorem splitAt?_append (front back : List Char) :
    splitAt? (front ++ back) (width front) = some (front, back) := by
  induction front with
  | nil => simp
  | cons c front ih =>
    have hc : 0 < c.utf8Size := Char.utf8Size_pos c
    obtain ⟨n, hn⟩ : ∃ n, c.utf8Size + width front = n + 1 :=
      ⟨c.utf8Size + width front - 1, by omega⟩
    have hw : n + 1 - c.utf8Size = width front := by omega
    have hle : c.utf8Size ≤ n + 1 := by omega
    rw [List.cons_append, width_cons, hn, splitAt?, if_pos hle, hw, ih]
    rfl

/-! ## 3. Pieces between two positions -/

/-- The text from one position to another, `none` unless both are positions of the text and the
first is not after the second. -/
def slice? (text : List Char) (start stop : Nat) : Option (List Char) := do
  let (_, back) ← splitAt? text start
  if stop < start then none
  let (piece, _) ← splitAt? back (stop - start)
  return piece

/-- The text with what lies between two positions replaced, `none` as for `slice?`. -/
def splice? (text : List Char) (start stop : Nat) (new : List Char) : Option (List Char) := do
  let (front, back) ← splitAt? text start
  if stop < start then none
  let (_, rest) ← splitAt? back (stop - start)
  return front ++ new ++ rest

/-- The text from one position to another, empty when there is no such text. -/
def slice (text : List Char) (start stop : Nat) : List Char :=
  (slice? text start stop).getD []

end TaggedText.Text
