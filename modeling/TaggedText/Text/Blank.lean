/-
# Blank characters

White space as the Unicode property `White_Space` has it: the controls from tab to carriage
return, the space, the no-break space, and the line and paragraph separators among others.
Query texts may hold any of it between their words, and a line of nothing else is an empty line.
-/
import TaggedText.Text.Range

namespace TaggedText.Text

/-- The code points with the property `White_Space`. -/
def blankRanges : List (Nat × Nat) := [
  (9, 13), (32, 32), (133, 133), (160, 160), (5760, 5760), (8192, 8202), (8232, 8233),
  (8239, 8239), (8287, 8287), (12288, 12288)]

/-- White space. -/
def isBlank (c : Char) : Bool := inRanges blankRanges c.toNat

/-- The text without the blanks it begins with. -/
def dropBlanks (text : List Char) : List Char := text.dropWhile isBlank

/-- The text holds no character that is not blank. -/
def allBlank (text : List Char) : Bool := text.all isBlank

/-- **Nothing is left of a text exactly when it is blank throughout.** -/
theorem dropBlanks_eq_nil_iff (text : List Char) :
    dropBlanks text = [] ↔ allBlank text = true := by
  induction text with
  | nil => simp [dropBlanks, allBlank]
  | cons c rest ih =>
    cases h : isBlank c <;> simp_all [dropBlanks, allBlank]

end TaggedText.Text
