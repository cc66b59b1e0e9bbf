/-
# Lines

A line ends with a line feed, which belongs to it, or with the text; a text that ends with a line
feed has no further, empty line.  Shown without its end, a line also loses a carriage return right
before its line feed, and only there.
-/

namespace TaggedText.Text

/-- The lines of a text with their ends. -/
def linesWithEnds : List Char → List (List Char)
  | [] => []
  | c :: rest =>
    if c = '\n' then [c] :: linesWithEnds rest
    else
      match linesWithEnds rest with
      | [] => [[c]]
      | line :: lines => (c :: line) :: lines

/-- A line without its end. -/
def dropEnd (line : List Char) : List Char :=
  match line.reverse with
  | '\n' :: '\r' :: front => front.reverse
  | '\n' :: front => front.reverse
  | _ => line

/-- The lines of a text without their ends. -/
def lines (text : List Char) : List (List Char) := (linesWithEnds text).map dropEnd

/-- **The lines of a text, put together again, are the text.** -/
theorem flatten_linesWithEnds (text : List Char) : (linesWithEnds text).flatten = text := by
  induction text with
  | nil => rfl
  | cons c rest ih =>
    unfold linesWithEnds
    split
    · simp [ih]
    · split
      · rename_i h; rw [h] at ih; simp_all
      · rename_i h; rw [h] at ih; simp_all

end TaggedText.Text
