/-
# Operators

What the operators of formulas do to values.  Two whole numbers give a whole number, which wraps
around, except that a quotient and a power are always real; any other two numbers are computed with
as real numbers.  **The floored quotient rounds down and the remainder has the sign of the divisor**,
so that the two fit together.  A text that is written as a number is taken for the real number where
a number is asked for.

Numbers are compared exactly, whole with real ones too; texts are compared byte by byte; values of
different kinds are different and have no order.
-/
import TaggedText.Formula.Numeral
import TaggedText.Formula.Real

namespace TaggedText.Formula

/-- The operators on two values. -/
inductive Operator where
  | add
  | subtract
  | multiply
  | divide
  | floorDivide
  | modulo
  | power
  | bitAnd
  | bitOr
  | bitXor
  | shiftLeft
  | shiftRight
  | concatenate
  | equal
  | less
  | atMost
deriving DecidableEq

/-- The operators on one value that need no memory. -/
inductive Unary where
  | minus
  | not
  | complement
deriving DecidableEq

namespace Value

/-! ## 1. Values as numbers -/

/-- The number that a value is or is written as. -/
def number? : Value → Option Value
  | integer n => some (integer n)
  | real x => some (real x)
  | text bytes => Numeral.read? (bytes.map fun b => Char.ofNat b.toNat)
  | _ => none

/-- The value as a real number. -/
def real? (v : Value) : Option Float :=
  match v.number? with
  | some (integer n) => some n.toFloat
  | some (real x) => some x
  | _ => none

/-- The value as a whole number. -/
def whole? (v : Value) : Option Int64 :=
  match v.number? with
  | some (integer n) => some n
  | some (real x) => Real.whole? x
  | _ => none

/-! ## 2. Comparing -/

/-- Two values are the same. -/
def equals : Value → Value → Bool
  | nil, nil => true
  | truth a, truth b => a == b
  | integer a, integer b => a == b
  | real x, real y => x == y
  | integer a, real y => Real.whole? y == some a
  | real x, integer b => Real.whole? x == some b
  | text a, text b => a == b
  | table a, table b => a == b
  | _, _ => false

/-- The order of two numbers or two texts, nothing for a number that cannot be compared. -/
def compare? : Value → Value → Except Defect (Option Ordering)
  | integer a, integer b => .ok (some (compare a.toInt b.toInt))
  | integer a, real y => .ok (Real.compareWhole? a.toInt y)
  | real x, integer b => .ok ((Real.compareWhole? b.toInt x).map Ordering.swap)
  | real x, real y =>
    .ok (if x < y then some .lt else if y < x then some .gt else if x == y then some .eq else none)
  | text a, text b => .ok (some (compare (a.map UInt8.toNat) (b.map UInt8.toNat)))
  | _, _ => .error .incomparable

/-! ## 3. Arithmetic -/

/-- The floored quotient of whole numbers. -/
def floorQuotient (a b : Int64) : Except Defect Int64 :=
  if b = 0 then .error .divisionByZero else .ok (Int64.ofInt (Int.fdiv a.toInt b.toInt))

/-- The floored remainder of whole numbers. -/
def floorRemainder (a b : Int64) : Except Defect Int64 :=
  if b = 0 then .error .divisionByZero else .ok (Int64.ofInt (Int.fmod a.toInt b.toInt))

/-- An operation on numbers, with a rule for whole numbers and one for the others. -/
def arithmetic (whole : Int64 → Int64 → Except Defect Int64) (rounded : Float → Float → Float)
    (a b : Value) : Except Defect Value :=
  match a, b with
  | integer m, integer n => (whole m n).map integer
  | _, _ =>
    match a.real?, b.real? with
    | some x, some y => .ok (real (rounded x y))
    | _, _ => .error .numberExpected

/-- An operation on real numbers. -/
def realArithmetic (rounded : Float → Float → Float) (a b : Value) : Except Defect Value :=
  match a.real?, b.real? with
  | some x, some y => .ok (real (rounded x y))
  | _, _ => .error .numberExpected

/-! ## 4. Bits -/

/-- Bits moved up by a number of places, or down if it is negative; bits that leave are lost, and
zeros come in. -/
def shifted (a : Int64) (places : Int) : Int64 :=
  if places ≤ -64 ∨ 64 ≤ places then 0
  else if places < 0 then (a.toUInt64 >>> UInt64.ofNat places.natAbs).toInt64
  else (a.toUInt64 <<< UInt64.ofNat places.natAbs).toInt64

/-- An operation on bits. -/
def bitwise (f : Int64 → Int64 → Int64) (a b : Value) : Except Defect Value :=
  match a.whole?, b.whole? with
  | some m, some n => .ok (integer (f m n))
  | _, _ =>
    .error (if a.number?.isSome ∧ b.number?.isSome then .wholeExpected else .numberExpected)

/-! ## 5. Texts -/

/-- A number or a text as a text. -/
def text? : Value → Option (List UInt8)
  | text bytes => some bytes
  | integer n => some (n.toInt.repr.toList.flatMap String.utf8EncodeChar)
  | real x => some ((Real.text x).flatMap String.utf8EncodeChar)
  | _ => none

/-- Two texts, or numbers as texts, one behind the other. -/
def concatenated (a b : Value) : Except Defect Value :=
  match a.text?, b.text? with
  | some x, some y => .ok (text (x ++ y))
  | _, _ => .error .textExpected

end Value

/-! ## 6. Operators -/

/-- What an operator gives for two values. -/
def Operator.apply : Operator → Value → Value → Except Defect Value
  | add => Value.arithmetic (fun m n => .ok (m + n)) (· + ·)
  | subtract => Value.arithmetic (fun m n => .ok (m - n)) (· - ·)
  | multiply => Value.arithmetic (fun m n => .ok (m * n)) (· * ·)
  | divide => Value.realArithmetic (· / ·)
  | floorDivide => Value.arithmetic Value.floorQuotient fun x y => (x / y).floor
  | modulo => Value.arithmetic Value.floorRemainder Real.modulo
  | power => Value.realArithmetic Float.pow
  | bitAnd => Value.bitwise (· &&& ·)
  | bitOr => Value.bitwise (· ||| ·)
  | bitXor => Value.bitwise (· ^^^ ·)
  | shiftLeft => Value.bitwise fun m n => Value.shifted m n.toInt
  | shiftRight => Value.bitwise fun m n => Value.shifted m (-n.toInt)
  | concatenate => Value.concatenated
  | equal => fun a b => .ok (.truth (a.equals b))
  | less => fun a b => (a.compare? b).map fun o => .truth (o == some .lt)
  | atMost => fun a b => (a.compare? b).map fun o => .truth (o == some .lt || o == some .eq)

/-- What an operator gives for one value. -/
def Unary.apply : Unary → Value → Except Defect Value
  | not, v => .ok (.truth !v.isTrue)
  | minus, .integer n => .ok (.integer (-n))
  | minus, v =>
    match v.real? with
    | some x => .ok (.real (-x))
    | none => .error .numberExpected
  | complement, v =>
    match v.whole? with
    | some n => .ok (.integer (~~~n))
    | none => .error (if v.number?.isSome then .wholeExpected else .numberExpected)

end TaggedText.Formula
