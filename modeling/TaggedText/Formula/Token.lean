/-
# The words of a formula

A formula is cut into names, numerals, texts and signs; a reserved word is a sign.  Blanks separate
words and mean nothing else, and so do comments, which begin with two dashes and last to the end of
the line, or to the closing brackets of a long one.

A text stands between single or double marks, on one line, and the backslash introduces characters
that cannot be written as they are; or it stands between long brackets, `[[` and `]]` with any number
of equal signs in the middle of each, on any number of lines, and everything in it stands for itself.
-/
import TaggedText.Formula.Numeral

namespace TaggedText.Formula

/-- A word of a formula. -/
inductive Token where
  | name (n : String)
  /-- A numeral or a text. -/
  | constant (v : Value)
  | sign (s : String)

namespace Token

/-! ## 1. Names and signs -/

/-- The words that are no names. -/
def reserved : List String := [
  "and", "break", "do", "else", "elseif", "end", "false", "for", "function", "goto", "if", "in",
  "local", "nil", "not", "or", "repeat", "return", "then", "true", "until", "while"]

/-- The signs, each before those that it begins with. -/
def signs : List String := [
  "...", "..", "==", "~=", "<=", ">=", "//", "::", "<<", ">>",
  "+", "-", "*", "/", "%", "^", "#", "&", "~", "|", "<", ">", "=", "(", ")", "\x7b", "\x7d",
  "[", "]", ";", ":", ",", "."]

/-- A character that a name begins with. -/
def isInitial (c : Char) : Bool := c.isAlpha || c = '_'

/-- A character of a name. -/
def isInner (c : Char) : Bool := isInitial c || c.isDigit

/-- The word of these letters. -/
def ofLetters (cs : List Char) : Token :=
  let s := String.ofList cs
  if reserved.contains s then sign s else name s

/-- The sign at the beginning of a text, and the rest. -/
def cutSign? (text : List Char) : Option (Token × List Char) :=
  (signs.find? fun s => s.toList.isPrefixOf text).map fun s => (sign s, text.drop s.length)

/-! ## 2. Texts between marks -/

/-- The letters for characters that are hard to write, with what they stand for. -/
def escapes : List (Char × UInt8) := [
  ('a', 7), ('b', 8), ('f', 12), ('n', 10), ('r', 13), ('t', 9), ('v', 11), ('\\', 92),
  ('\x22', 34), ('\x27', 39)]

/-- Up to three digits at the beginning of a text, and the rest. -/
def cutDecimal (text : List Char) : List Char × List Char :=
  let ds := (text.take 3).takeWhile Char.isDigit
  (ds, text.drop ds.length)

/-- The bytes of a code point; those beyond the characters are written in the same way. -/
def pointBytes (n : Nat) : List UInt8 :=
  let low := fun k => UInt8.ofNat (128 + (n >>> (6 * k)) % 64)
  if n < 0x80 then [UInt8.ofNat n]
  else if n < 0x800 then [UInt8.ofNat (0xC0 + n / 64), low 0]
  else if n < 0x10000 then [UInt8.ofNat (0xE0 + (n >>> 12)), low 1, low 0]
  else [UInt8.ofNat (0xF0 + (n >>> 18)), low 2, low 1, low 0]

/-- What stands for itself or others behind a backslash: its bytes, and the rest. -/
def cutEscape? : List Char → Option (List UInt8 × List Char)
  | '\n' :: '\r' :: rest => some ([10], rest)
  | '\r' :: '\n' :: rest => some ([10], rest)
  | '\n' :: rest => some ([10], rest)
  | '\r' :: rest => some ([10], rest)
  | 'z' :: rest => some ([], rest.dropWhile Numeral.isBlank)
  | 'x' :: a :: b :: rest =>
    if Numeral.isHexadecimal a ∧ Numeral.isHexadecimal b then
      some ([UInt8.ofNat (Numeral.digits 16 [a, b])], rest)
    else none
  | 'u' :: '{' :: rest =>
    let ds := rest.takeWhile Numeral.isHexadecimal
    match rest.dropWhile Numeral.isHexadecimal with
    | '}' :: rest =>
      let n := Numeral.digits 16 ds
      if ds.isEmpty ∨ 0x10FFFF < n then none else some (pointBytes n, rest)
    | _ => none
  | c :: rest =>
    match escapes.lookup c with
    | some b => some ([b], rest)
    | none =>
      match cutDecimal (c :: rest) with
      | ([], _) => none
      | (ds, rest) =>
        let n := Numeral.digits 10 ds
        if 255 < n then none else some ([UInt8.ofNat n], rest)
  | [] => none

/-- The bytes up to the closing mark, and what is behind it.  Each step takes a character at
least. -/
def cutText? (mark : Char) : Nat → List Char → Option (List UInt8 × List Char)
  | 0, _ => none
  | _, [] => none
  | fuel + 1, c :: rest =>
    if c = mark then some ([], rest)
    else if c = '\n' ∨ c = '\r' then none
    else if c = '\\' then do
      let (bytes, rest) ← cutEscape? rest
      let (more, rest) ← cutText? mark fuel rest
      return (bytes ++ more, rest)
    else do
      let (more, rest) ← cutText? mark fuel rest
      return (String.utf8EncodeChar c ++ more, rest)

/-! ## 3. Texts between long brackets -/

/-- The level of the opening long bracket at the beginning of a text, and what is behind it. -/
def cutOpening? : List Char → Option (Nat × List Char)
  | '[' :: rest =>
    match rest.dropWhile (· = '=') with
    | '[' :: inner => some ((rest.takeWhile (· = '=')).length, inner)
    | _ => none
  | _ => none

/-- The closing long bracket of a level. -/
def closing (level : Nat) : List Char := ']' :: List.replicate level '=' ++ [']']

/-- The end of a line may be written with one or two characters, and is one. -/
def dropLineEnd : List Char → Option (List Char)
  | '\n' :: '\r' :: rest => some rest
  | '\r' :: '\n' :: rest => some rest
  | '\n' :: rest => some rest
  | '\r' :: rest => some rest
  | _ => none

/-- The bytes up to the closing bracket of a level, and what is behind it. -/
def cutLong? (level : Nat) : Nat → List Char → Option (List UInt8 × List Char)
  | 0, _ => none
  | _, [] => none
  | fuel + 1, c :: rest =>
    if (closing level).isPrefixOf (c :: rest) then
      some ([], (c :: rest).drop (level + 2))
    else
      match dropLineEnd (c :: rest) with
      | some rest => (cutLong? level fuel rest).map fun (more, rest) => (10 :: more, rest)
      | none =>
        (cutLong? level fuel rest).map fun (more, rest) =>
          (String.utf8EncodeChar c ++ more, rest)

/-- What stands between long brackets: the end of a line right behind the first one does not count. -/
def cutBracketed? (text : List Char) : Option (List UInt8 × List Char) := do
  let (level, inner) ← cutOpening? text
  let inner := (dropLineEnd inner).getD inner
  cutLong? level (inner.length + 1) inner

/-- The text behind a comment, whose two dashes are gone; `none` for a long one without an end. -/
def dropComment? (text : List Char) : Option (List Char) :=
  match cutOpening? text with
  | some _ => (cutBracketed? text).map Prod.snd
  | none => some (text.dropWhile fun c => c ≠ '\n' && c ≠ '\r')

/-! ## 4. Cutting a formula into words -/

/-- The word at the beginning of a text, which is neither blank nor a comment, and the rest. -/
def cut? (text : List Char) : Option (Token × List Char) :=
  match text with
  | [] => none
  | c :: rest =>
    if isInitial c then some (ofLetters (text.takeWhile isInner), text.dropWhile isInner)
    else if c.isDigit ∨ (c = '.' ∧ rest.head?.any Char.isDigit) then
      (Numeral.cut? text).map fun (v, rest) => (constant v, rest)
    else if c = '\x22' ∨ c = '\x27' then
      (cutText? c (rest.length + 1) rest).map fun (bytes, rest) => (constant (.text bytes), rest)
    else if c = '[' ∧ (cutOpening? text).isSome then
      (cutBracketed? text).map fun (bytes, rest) => (constant (.text bytes), rest)
    else if c = '[' ∧ rest.head? = some '=' then none
    else cutSign? text

/-- The words of a text, `none` if it cannot be cut.  Each step takes a character at least. -/
def cutAll? : Nat → List Char → Option (List Token)
  | _, [] => some []
  | 0, _ => none
  | fuel + 1, text@(c :: rest) =>
    if Numeral.isBlank c then cutAll? fuel rest
    else
      match text with
      | '-' :: '-' :: comment => (dropComment? comment).bind (cutAll? fuel)
      | _ => do
        let (t, rest) ← cut? text
        let more ← cutAll? fuel rest
        return t :: more

/-- The words of a text. -/
def ofText? (text : List Char) : Option (List Token) := cutAll? text.length text

end Token

end TaggedText.Formula
