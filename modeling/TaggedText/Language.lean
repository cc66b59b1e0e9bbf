/-
# Languages of predicates

Predicates that the user writes are in some language.  What its programs are and what they do is left
to the language; it may remember more from one evaluation to the next.  A predicate is a program, or
what makes one behind `return `.  It is evaluated for a row of spans, which it finds in the variable
`locs`: one record for each span, with its bounds and its offset.
-/
import TaggedText.Span

namespace TaggedText

/-- What understands programs and evaluates them. -/
class Language where
  /-- What is remembered from one evaluation to the next. -/
  Memory : Type
  /-- What is remembered at first. -/
  fresh : Memory
  /-- The text is a program. -/
  compiles (program : List Char) : Bool
  /-- A variable gets a list of records, which have numbers under names; `none` if that goes wrong. -/
  assign (name : String) (records : List (List (String × Nat))) : Memory → Option Unit × Memory
  /-- A text is evaluated, as a term or as a program: whether its answer counts as true, `none` if
  something goes wrong. -/
  eval (source : List Char) : Memory → Option Bool × Memory

namespace Language

/-- A span as a record. -/
def record (a : Span) : List (String × Nat) :=
  [("start", a.start), ("end", a.stop), ("offset", a.offset)]

variable [Language]

/-- The text can be a predicate. -/
def isPredicate (source : List Char) : Bool :=
  compiles ("return ".toList ++ source) || compiles source

/-- A predicate is evaluated for a row. -/
def holds (source : List Char) (row : Row) (memory : Memory) : Option Bool × Memory :=
  match assign "locs" (row.map record) memory with
  | (none, memory) => (none, memory)
  | (some (), memory) => eval source memory

end Language

end TaggedText
