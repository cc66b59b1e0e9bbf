/-
# Formulas

A predicate that the user writes is a formula in the language of Lua 5.3, without functions.  It holds
if it answers with a value that counts as true.

Formulas are the language of this library.
-/
import TaggedText.Formula.Evaluate
import TaggedText.Formula.Reader
import TaggedText.Language

namespace TaggedText

/-- A formula that has been read. -/
abbrev Formula := List Formula.Statement

namespace Formula

/-- The formula that a text is. -/
def ofText? (text : List Char) : Option Formula := Reader.read? text

/-- A formula holds, or something goes wrong; the memory afterwards.  No variables are declared before
the formula. -/
def holds (f : Formula) (m : Memory) : Except Defect Bool × Memory :=
  let (r, m) := (runAll f).run { m with locals := [] }
  (r.map fun flow =>
    match flow with
    | .answer v => v.isTrue
    | _ => false, m)

end Formula

instance : Language where
  Memory := Formula.Memory
  fresh := {}
  compiles := Formula.Reader.isBlock
  assign name records m := (some (), m.setRecords name records)
  eval source m :=
    match Formula.ofText? source with
    | none => (none, m)
    | some f =>
      let (r, m) := f.holds m
      (r.toOption, m)

end TaggedText
