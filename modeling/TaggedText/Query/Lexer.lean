/-
# From a query text to its tokens

A query text is cut into pieces first: words, and the single characters `( ) , < > = !`, with white
space between them as far as it is needed or wanted.  Any other character is a flaw.  The pieces
then become tokens; only distances take more than one piece, and their order is changed, so that
the comparison comes before the columns.
-/
import TaggedText.Fault
import TaggedText.Text.Word
import TaggedText.Text.Blank

namespace TaggedText.Query

open Text (isWord isBlank)

/-! ## 1. Pieces -/

/-- The characters that are a piece of their own. -/
def isDelimiter (c : Char) : Bool :=
  c == ')' || c == '(' || c == ',' || c == '>' || c == '<' || c == '=' || c == '!'

/-- A word that has been read backwards, as a piece if there is one. -/
def wordPiece (backwards : List Char) : List String :=
  if backwards.isEmpty then [] else [String.ofList backwards.reverse]

/-- The pieces of a text, behind a word that has been read backwards. -/
def piecesAfter (backwards : List Char) : List Char → Except Flaw (List String)
  | [] => .ok (wordPiece backwards)
  | c :: rest =>
    if isWord c then piecesAfter (c :: backwards) rest
    else if isDelimiter c then
      (piecesAfter [] rest).map fun pieces =>
        wordPiece backwards ++ String.singleton c :: pieces
    else if isBlank c then (piecesAfter [] rest).map (wordPiece backwards ++ ·)
    else .error (.strayCharacter c)

/-- The pieces of a text. -/
def pieces (text : List Char) : Except Flaw (List String) := piecesAfter [] text

/-! ## 2. Numbers -/

/-- The largest number; a larger numeral is read as this one, which is out of range of every
column. -/
def largestNumber : Nat := 18446744073709551615

/-- The piece is a numeral. -/
def isNumeral (piece : String) : Bool := !piece.isEmpty && piece.toList.all Char.isDigit

/-- The value of decimal digits. -/
def decimalValue (digits : List Char) : Nat :=
  digits.foldl (fun n d => 10 * n + (d.toNat - 48)) 0

/-- The number of a numeral. -/
def numeralValue (piece : String) : Nat := min (decimalValue piece.toList) largestNumber

/-! ## 3. Distances -/

/-- The next piece of a distance. -/
def nextPiece (what : String) : List String → Except Flaw (String × List String)
  | [] => .error (.distanceEnds what)
  | piece :: rest => .ok (piece, rest)

/-- A delimiter of a distance. -/
def delimiter (expected : String) (pieces : List String) : Except Flaw (List String) := do
  let (piece, rest) ← nextPiece expected pieces
  if piece = expected then return rest else throw (.distanceHas piece expected)

/-- A column of a distance. -/
def column (pieces : List String) : Except Flaw (Nat × List String) := do
  let (piece, rest) ← nextPiece "n" pieces
  if isNumeral piece then return (numeralValue piece, rest)
  else throw (.distanceHas piece "a column number")

/-- The comparison of a distance and the piece behind it.  A comparison of two characters may be
cut in two pieces. -/
def comparison (pieces : List String) : Except Flaw (String × String × List String) := do
  let (symbol, rest) ← nextPiece "a comparison" pieces
  let (piece, rest) ← nextPiece "a distance" rest
  if piece = "=" ∧ symbol ≠ "=" then
    let (piece, rest) ← nextPiece "a distance" rest
    return (symbol ++ "=", piece, rest)
  else return (symbol, piece, rest)

/-- A distance, from behind its first word on: its tokens and the pieces behind it. -/
def readDistance (pieces : List String) : Except Flaw (List Token × List String) := do
  let rest ← delimiter "(" pieces
  let (first, rest) ← column rest
  let rest ← delimiter "," rest
  let (second, rest) ← column rest
  let rest ← delimiter ")" rest
  let (symbol, piece, rest) ← comparison rest
  match Comparison.ofSymbol? symbol with
  | none => throw (.distanceHas symbol "a comparison")
  | some c =>
    if isNumeral piece then
      return ([.distance c (numeralValue piece), .opening, .number first, .comma,
        .number second, .closing], rest)
    else throw (.distanceHas piece "a distance")

/-! ## 4. Tokens -/

/-- The token of a piece outside of a distance. -/
def tokenOf (piece : String) : Token :=
  if piece = "(" then .opening
  else if piece = ")" then .closing
  else if piece = "," then .comma
  else if piece = "and" then .conjunction
  else if piece = "or" then .disjunction
  else if piece = "<" then .symbol '<'
  else if piece = ">" then .symbol '>'
  else if piece = "=" then .symbol '='
  else if piece = "!" then .symbol '!'
  else if isNumeral piece then .number (numeralValue piece)
  else .name piece

/-- The tokens of pieces.  Every round takes a piece, so `fuel` is the number of pieces. -/
def tokensFrom : Nat → List String → Except Flaw (List Token)
  | 0, _ => .ok []
  | _, [] => .ok []
  | fuel + 1, piece :: rest =>
    if piece = "dist" then
      (readDistance rest).bind fun (tokens, rest) =>
        (tokensFrom fuel rest).map (tokens ++ ·)
    else (tokensFrom fuel rest).map (tokenOf piece :: ·)

/-- The tokens of a query text. -/
def tokens? (text : List Char) : Except Flaw (List Token) :=
  (pieces text).bind fun pieces => tokensFrom pieces.length pieces

/-- The tokens of a query text, or what is wrong with it. -/
def tokenize (text : String) : Except Fault (List Token) :=
  (tokens? text.toList).mapError (.query text)

end TaggedText.Query
