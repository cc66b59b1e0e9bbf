/-
# Quoted text

The form in which messages and listings show a piece of text: between quotation marks, with the
mark itself, the backslash and the usual controls behind a backslash, and every other character
that cannot be shown as it is by its code point in hexadecimal.  A single character stands between
single marks, a text between double ones, and each escapes only the mark it stands between.
-/
import TaggedText.Text.Visible

namespace TaggedText.Text

/-- The mark around a single character. -/
def singleMark : Char := '\x27'

/-- The mark around a text. -/
def doubleMark : Char := '\x22'

/-- How a character is written between two of the given marks. -/
def escape (mark c : Char) : List Char :=
  if c = mark ∨ c = '\\' then ['\\', c]
  else if c = '\x00' then ['\\', '0']
  else if c = '\t' then ['\\', 't']
  else if c = '\r' then ['\\', 'r']
  else if c = '\n' then ['\\', 'n']
  else if isVisible c then [c]
  else '\\' :: 'u' :: '{' :: Nat.toDigits 16 c.toNat ++ ['}']

/-- A text between double marks. -/
def quoted (text : List Char) : List Char :=
  doubleMark :: text.flatMap (escape doubleMark) ++ [doubleMark]

/-- A character between single marks. -/
def quotedChar (c : Char) : List Char :=
  singleMark :: escape singleMark c ++ [singleMark]

/-- A list in brackets, its members separated by a comma and a space. -/
def bracketed (members : List String) : String :=
  "[" ++ String.intercalate ", " members ++ "]"

/-- A list of numbers in brackets. -/
def numbers (ns : List Nat) : String := bracketed (ns.map Nat.repr)

end TaggedText.Text
