/-
# Comparisons

The six comparisons of numbers that a distance in a query may ask for, with the symbols that write
them.  **A comparison is the only one with its symbol.**
-/

namespace TaggedText

/-- A comparison of two numbers. -/
inductive Comparison where
  | equal
  | notEqual
  | greater
  | greaterEqual
  | less
  | lessEqual
deriving DecidableEq

namespace Comparison

/-- The symbol that writes a comparison. -/
def symbol : Comparison → String
  | equal => "="
  | notEqual => "!="
  | greater => ">"
  | greaterEqual => ">="
  | less => "<"
  | lessEqual => "<="

/-- All comparisons. -/
def all : List Comparison := [equal, notEqual, greater, greaterEqual, less, lessEqual]

/-- The comparison that a symbol writes. -/
def ofSymbol? (symbol : String) : Option Comparison :=
  all.find? fun c => c.symbol == symbol

/-- The comparison holds between two numbers. -/
def holds : Comparison → Nat → Nat → Bool
  | equal, a, b => a == b
  | notEqual, a, b => a != b
  | greater, a, b => b < a
  | greaterEqual, a, b => b ≤ a
  | less, a, b => a < b
  | lessEqual, a, b => a ≤ b

/-- Reading a symbol undoes writing it. -/
theorem ofSymbol?_symbol (c : Comparison) : ofSymbol? c.symbol = some c := by
  cases c <;> decide

end Comparison

end TaggedText
