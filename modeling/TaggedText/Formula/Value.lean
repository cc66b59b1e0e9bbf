/-
# Values of formulas

A formula computes with truth values, whole numbers of 64 bits, which wrap around, real numbers,
texts and tables, and `nil` where there is no value.  Texts are bytes: their length counts bytes and
their order is that of the bytes.  Tables are known by their place in memory, so that two tables are
the same only if they are one.

`nil` and false are the values that count as false; **every other value counts as true**, zero and
the empty text among them.
-/

namespace TaggedText.Formula

/-- What a formula computes with. -/
inductive Value where
  | nil
  | truth (b : Bool)
  | integer (n : Int64)
  | real (x : Float)
  | text (bytes : List UInt8)
  | table (place : Nat)

/-- What goes wrong when a formula is evaluated. -/
inductive Defect where
  | numberExpected
  /-- A number that is not whole, where bits are asked for. -/
  | wholeExpected
  | textExpected
  | divisionByZero
  | incomparable
  /-- Something other than a table is looked into. -/
  | tableExpected
  /-- A field cannot be named by `nil` or by what is not a number. -/
  | badKey
  | noLength
  /-- There is nothing that can be called. -/
  | uncallable
  /-- A loop does not end. -/
  | endless
deriving DecidableEq

namespace Value

/-- The value counts as true. -/
def isTrue : Value → Bool
  | nil => false
  | truth b => b
  | _ => true

/-- The text of characters. -/
def ofChars (cs : List Char) : Value := text (cs.flatMap String.utf8EncodeChar)

/-- The text of a string. -/
def ofString (s : String) : Value := ofChars s.toList

/-- Whole numbers lie below this bound, and from its opposite on. -/
def bound : Nat := 9223372036854775808

/-- A number that is not negative; one beyond the whole numbers of 64 bits is a real number. -/
def ofNat (n : Nat) : Value :=
  if n < bound then integer (Int64.ofNat n) else real n.toFloat

end Value

end TaggedText.Formula
