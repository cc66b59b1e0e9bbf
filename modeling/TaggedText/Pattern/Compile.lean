/-
# The engine of this library

Notation that can be read is compiled to the matcher of its pattern; a text that stands for itself
always has a pattern.
-/
import TaggedText.Pattern.Reader
import TaggedText.Pattern.Scan

namespace TaggedText.Pattern

instance : Engine where
  compile? source := (read? source).map finder
  literal? text := some (literal text).finder

end TaggedText.Pattern
