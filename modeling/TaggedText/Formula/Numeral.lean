/-
# Numerals

A numeral is decimal, with an optional fraction and a power of ten, or hexadecimal behind `0x`, with
an optional fraction and a power of two behind `p`.  Digits alone are a whole number: a decimal one
that does not fit 64 bits is real instead, and a hexadecimal one wraps around.  Blanks and a sign may
stand before a numeral, and blanks after it, where a text is read as a number.
-/
import TaggedText.Formula.Value

namespace TaggedText.Formula.Numeral

/-! ## 1. Characters -/

/-- The blanks of formulas are those of ASCII. -/
def isBlank (c : Char) : Bool := c = ' ' || (9 ≤ c.toNat && c.toNat ≤ 13)

/-- A hexadecimal digit. -/
def isHexadecimal (c : Char) : Bool :=
  c.isDigit || ('a' ≤ c && c ≤ 'f') || ('A' ≤ c && c ≤ 'F')

/-- What a digit stands for. -/
def digit (c : Char) : Nat :=
  if c.isDigit then c.toNat - '0'.toNat
  else if 'a' ≤ c then c.toNat - 'a'.toNat + 10
  else c.toNat - 'A'.toNat + 10

/-- What a row of digits stands for. -/
def digits (base : Nat) (cs : List Char) : Nat := cs.foldl (fun n c => base * n + digit c) 0

/-! ## 2. Parts -/

/-- A sign, and what is behind it. -/
def splitSign : List Char → Bool × List Char
  | '-' :: rest => (true, rest)
  | '+' :: rest => (false, rest)
  | cs => (false, cs)

/-- The exponent behind a letter, nought without one. -/
def exponent? (isLetter : Char → Bool) : List Char → Option Int
  | [] => some 0
  | c :: rest =>
    if isLetter c then
      let (negative, cs) := splitSign rest
      if cs.isEmpty ∨ !cs.all Char.isDigit then none
      else some (if negative then -(digits 10 cs : Int) else digits 10 cs)
    else none

/-- A numeral in parts: the digits before and behind the point, if there is one, and the rest. -/
def parts (isDigit : Char → Bool) (cs : List Char) : List Char × Option (List Char) × List Char :=
  match cs.dropWhile isDigit with
  | '.' :: rest => (cs.takeWhile isDigit, some (rest.takeWhile isDigit), rest.dropWhile isDigit)
  | rest => (cs.takeWhile isDigit, none, rest)

/-! ## 3. Values -/

/-- A number times a power of ten.  Beyond this range the power does not matter. -/
def timesTen (n : Nat) (digitCount : Nat) (e : Int) : Float :=
  let bound : Int := digitCount + 400
  let e := max (-bound) (min bound e)
  Float.ofScientific n (e < 0) e.natAbs

/-- A number times a power of two.  Beyond this range the power does not matter. -/
def timesTwo (n : Nat) (digitCount : Nat) (e : Int) : Float :=
  let bound : Int := 4 * digitCount + 1100
  n.toFloat.scaleB (max (-bound) (min bound e))

/-- A real number with a sign. -/
def signedReal (negative : Bool) (x : Float) : Value := .real (if negative then -x else x)

/-- A whole number with a sign; it wraps around. -/
def signedInteger (negative : Bool) (n : Nat) : Value :=
  .integer (Int64.ofInt (if negative then -(n : Int) else n))

/-- A decimal numeral. -/
def decimal? (negative : Bool) (cs : List Char) : Option Value :=
  match parts Char.isDigit cs with
  | ([], none, _) => none
  | ([], some [], _) => none
  | (whole, none, []) =>
    let n := digits 10 whole
    if n < Value.bound + (if negative then 1 else 0) then some (signedInteger negative n)
    else some (signedReal negative (timesTen n whole.length 0))
  | (whole, fraction, rest) => do
    let e ← exponent? (fun c => c = 'e' || c = 'E') rest
    let all := whole ++ fraction.getD []
    return signedReal negative
      (timesTen (digits 10 all) all.length (e - (fraction.getD []).length))

/-- A hexadecimal numeral, without `0x`. -/
def hexadecimal? (negative : Bool) (cs : List Char) : Option Value :=
  match parts isHexadecimal cs with
  | ([], none, _) => none
  | ([], some [], _) => none
  | (whole, none, []) => some (signedInteger negative (digits 16 whole))
  | (whole, fraction, rest) => do
    let e ← exponent? (fun c => c = 'p' || c = 'P') rest
    let all := whole ++ fraction.getD []
    return signedReal negative
      (timesTwo (digits 16 all) all.length (e - 4 * (fraction.getD []).length))

/-- A number that is written out, with nothing around it but blanks and a sign. -/
def read? (text : List Char) : Option Value :=
  let trimmed := ((text.dropWhile isBlank).reverse.dropWhile isBlank).reverse
  match splitSign trimmed with
  | (negative, '0' :: 'x' :: rest) => hexadecimal? negative rest
  | (negative, '0' :: 'X' :: rest) => hexadecimal? negative rest
  | (negative, rest) => decimal? negative rest

/-! ## 4. Cutting a numeral out of a text -/

/-- The characters that a numeral goes on for: digits of either kind, points, and a sign right behind
the letter of an exponent.  Whether they are a numeral is another question. -/
def scan (isLetter : Char → Bool) : List Char → List Char × List Char
  | [] => ([], [])
  | c :: rest =>
    if isLetter c then
      match rest with
      | sign :: rest =>
        if sign = '-' ∨ sign = '+' then
          let (more, rest) := scan isLetter rest
          (c :: sign :: more, rest)
        else
          let (more, rest) := scan isLetter (sign :: rest)
          (c :: more, rest)
      | [] => ([c], [])
    else if isHexadecimal c || c = '.' then
      let (more, rest) := scan isLetter rest
      (c :: more, rest)
    else ([], c :: rest)

/-- The numeral at the beginning of a text, which begins with a digit or a point, and the rest. -/
def cut? (text : List Char) : Option (Value × List Char) :=
  let (numeral, rest) := match text with
    | '0' :: 'x' :: rest =>
      let (more, rest) := scan (fun c => c = 'p' || c = 'P') rest
      ('0' :: 'x' :: more, rest)
    | '0' :: 'X' :: rest =>
      let (more, rest) := scan (fun c => c = 'p' || c = 'P') rest
      ('0' :: 'X' :: more, rest)
    | _ => scan (fun c => c = 'e' || c = 'E') text
  (read? numeral).map fun v => (v, rest)

end TaggedText.Formula.Numeral
