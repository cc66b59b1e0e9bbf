/-
# Real numbers, exactly

A finite real number of 64 bits is a whole number times a power of two.  From that form its order
among the whole numbers, its whole value and its floored remainder are computed without rounding, and
so are the fourteen decimal digits that it is written with.
-/
import TaggedText.Formula.Value

namespace TaggedText.Formula.Real

/-! ## 1. The exact form -/

/-- The magnitude `mantissa * 2 ^ exponent`, with a sign. -/
structure Binary where
  negative : Bool
  mantissa : Nat
  exponent : Int

/-- The bit in front of the mantissa, which is not stored. -/
def hiddenBit : Nat := 1 <<< 52

/-- The exact form of a finite number; the infinities and what is not a number have none. -/
def binary? (x : Float) : Option Binary :=
  let bits := x.toBits.toNat
  let negative := bits >>> 63 = 1
  let exponent := (bits >>> 52) % 2048
  let fraction := bits % hiddenBit
  if exponent = 2047 then none
  else if exponent = 0 then some ⟨negative, fraction, -1074⟩
  else some ⟨negative, fraction + hiddenBit, (exponent : Int) - 1075⟩

/-- The magnitude as a fraction. -/
def Binary.fraction (b : Binary) : Nat × Nat :=
  (b.mantissa <<< b.exponent.toNat, 1 <<< (-b.exponent).toNat)

/-- A magnitude with a sign. -/
def signed (negative : Bool) (n : Nat) : Int := if negative then -(n : Int) else n

/-- The value as a whole number, if it is one. -/
def Binary.whole? (b : Binary) : Option Int :=
  let (n, d) := b.fraction
  if n % d = 0 then some (signed b.negative (n / d)) else none

/-- The whole number of 64 bits that equals a real number. -/
def whole? (x : Float) : Option Int64 := do
  let b ← binary? x
  let n ← b.whole?
  if -(Value.bound : Int) ≤ n ∧ n < Value.bound then some (Int64.ofInt n) else none

/-! ## 2. Order among the whole numbers -/

/-- The order of a whole number and a real number, if they have one. -/
def compareWhole? (n : Int) (x : Float) : Option Ordering :=
  match binary? x with
  | some b =>
    let (numerator, denominator) := b.fraction
    some (compare (n * denominator) (signed b.negative numerator))
  | none => if x == x then some (if x < 0 then .gt else .lt) else none

/-! ## 3. Remainder -/

/-- The floored remainder, with the sign of the divisor.  It is a multiple of the smaller power of
two and less than the divisor, so that no rounding takes place unless the sign has to be mended. -/
def modulo (x y : Float) : Float :=
  match binary? x, binary? y with
  | some a, some b =>
    if b.mantissa = 0 then 0.0 / 0.0
    else
      let least := min a.exponent b.exponent
      let n := a.mantissa <<< (a.exponent - least).toNat
      let d := b.mantissa <<< (b.exponent - least).toNat
      let magnitude := (n % d).toFloat.scaleB least
      let remainder := if a.negative then -magnitude else magnitude
      if n % d ≠ 0 ∧ a.negative ≠ b.negative then remainder + y else remainder
  | some a, none =>
    if y == y then
      if a.mantissa ≠ 0 ∧ a.negative ≠ (y < 0 : Bool) then y else x
    else y
  | none, _ => 0.0 / 0.0

/-! ## 4. Decimal digits -/

/-- The number of decimal digits of a number. -/
def digitCount (n : Nat) : Nat := (Nat.toDigits 10 n).length

/-- A quotient rounded to the nearest whole number, a half to the even one. -/
def roundedQuotient (n d : Nat) : Nat :=
  let q := n / d
  let twice := 2 * (n % d)
  if d < twice ∨ (twice = d ∧ q % 2 = 1) then q + 1 else q

/-- A power of ten. -/
def tens (n : Nat) : Nat := Nat.pow 10 n

/-- The leading digits of a positive fraction as a number of `count` digits, and the power of ten of
the first of them. -/
def leading (count n d : Nat) : Nat × Int :=
  let guess : Int := (digitCount n : Int) - digitCount d
  let high := if d * tens guess.toNat ≤ n * tens (-guess).toNat then guess else guess - 1
  let shift := high - ((count : Int) - 1)
  let digits := roundedQuotient (n * tens (-shift).toNat) (d * tens shift.toNat)
  if digits = tens count then (tens (count - 1), high + 1) else (digits, high)

/-- The text without the zeros that it ends with. -/
def dropZeros (digits : List Char) : List Char := (digits.reverse.dropWhile (· = '0')).reverse

/-- A fractional part, with its point if there is one. -/
def fractional (digits : List Char) : List Char :=
  match dropZeros digits with
  | [] => []
  | kept => '.' :: kept

/-- An exponent of ten, with its sign and at least two digits. -/
def power (e : Int) : List Char :=
  let digits := Nat.toDigits 10 e.natAbs
  'e' :: (if e < 0 then '-' else '+') :: (if digits.length < 2 then '0' :: digits else digits)

/-- A magnitude in fourteen significant digits: positionally when the first of them stands for a power
of ten from -4 to 13, and with an exponent otherwise.  A whole number that is written positionally
shows that it is real by `.0`. -/
def magnitudeText (n d : Nat) : List Char :=
  if n = 0 then ['0', '.', '0']
  else
    let (number, high) := leading 14 n d
    let digits := Nat.toDigits 10 number
    if high < -4 ∨ 14 ≤ high then digits.take 1 ++ fractional (digits.drop 1) ++ power high
    else if high < 0 then
      '0' :: fractional (List.replicate ((-high).toNat - 1) '0' ++ digits)
    else
      let whole := high.toNat + 1
      match fractional (digits.drop whole) with
      | [] => digits.take whole ++ ['.', '0']
      | fraction => digits.take whole ++ fraction

/-- A real number in decimal. -/
def text (x : Float) : List Char :=
  match binary? x with
  | some b =>
    let (n, d) := b.fraction
    (if b.negative then ['-'] else []) ++ magnitudeText n d
  | none => (if x == x then (if x < 0 then "-inf" else "inf") else "-nan").toList

end TaggedText.Formula.Real
