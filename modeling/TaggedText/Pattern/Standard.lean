/-
# Patterns for printed documents

The notations of patterns for common pieces of printed documents.  A form feed separates pages.  A
field is a run of words with single spaces between them; two or more spaces separate fields.  The
patterns for dates and times are for texts in lower case.
-/

namespace TaggedText.Pattern.Standard

/-- The contents of a page, as group 1. -/
def page : String := "([^\\x0c]*)($|^|\\x0c)"

/-- The contents of a line, as group 1. -/
def line : String := "([^\\n\\x0c]*)(\\n|$|^|\\x0c)"

/-- A word. -/
def word : String := "[^\\n\\x0c ]+"

/-- A field, as group 2.  Neighbouring fields share the space between them, so the matches have to
be overlapped ones. -/
def field : String := "(\\n|^|$|\\x0c| )(([^\\n\\x0c ]+ )*[^\\n\\x0c ]+)"

/-- A field of one word, as group 2. -/
def wordField : String := "(\\n|^|$|\\x0c| )([^\\n\\x0c ]+)"

/-- A whole number, with commas between thousands. -/
def integer : String := "[0-9,]+"

/-- A number, with commas between thousands and perhaps a fraction. -/
def decimal : String := "[0-9,]+(\\.[0-9]*)?"

/-- A date in figures or in words. -/
def date : String :=
  "(((0|1)?\\d[/\\-][0-3]?\\d[/\\-]((19)|(20))?\\d\x7b2\x7d)" ++
  "|([0-3]?\\d[/\\-](0|1)?\\d[/\\-]((19)|(20))?\\d\x7b2\x7d)" ++
  "|((sunday|monday|tuesday|wednesday|thursday|friday|saturday" ++
  "|sun|mon|tue|wed|thu|fri|sat),? +" ++
  "(january|february|march|april|may|june|july|august|september|october|november|december" ++
  "|jan|feb|mar|apr|jun|jul|aug|sep|oct|nov|dec) +" ++
  "[0-3]?\\d,? +((19)|(20))?\\d\x7b2\x7d))"

/-- A time of day. -/
def time : String :=
  "[0-2]?\\d:[0-5]?\\d(:[0-5]?\\d)? *((am)|(pm))? *(\\(?gmt[-+][0-2]?\\d:[0-5]?\\d\\)?)?"

/-- An address for electronic mail. -/
def email : String :=
  "([A-Za-z0-9._%+=-]+@[A-Za-z0-9.-]+(\\.[A-Za-z]\x7b2,4\x7d)\x7b1,2\x7d)"

end TaggedText.Pattern.Standard
