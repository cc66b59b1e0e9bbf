/-
# Reading escapes and bracketed sets

The notation for sets of characters: escapes such as `\d`, code points in hexadecimal, and sets in
brackets with ranges, named ASCII classes, nested brackets and the operations `&&`, `--` and `~~`.
A reader takes the characters from its notation on and returns what it read with the rest; it
returns nothing for a notation that is not closed or not understood.
-/
import TaggedText.Pattern.Basic

namespace TaggedText.Pattern

/-! ## 1. Flags -/

/-- The flags that are on at a place in the notation. -/
structure Flags where
  anyCase : Bool := false
  multiLine : Bool := false
  dotAll : Bool := false
  swapGreed : Bool := false

/-- A set as the flag for case has it. -/
def Flags.cased (flags : Flags) (set : CharSet) : CharSet :=
  if flags.anyCase then .anyCase set else set

/-! ## 2. Escapes -/

/-- What an escape stands for. -/
inductive Escape where
  | char (c : Char)
  | set (s : CharSet)
  | anchor (a : Anchor)

/-- The value of a hexadecimal digit. -/
def hexDigit? (c : Char) : Option Nat :=
  if '0' ≤ c ∧ c ≤ '9' then some (c.toNat - 48)
  else if 'a' ≤ c ∧ c ≤ 'f' then some (c.toNat - 87)
  else if 'A' ≤ c ∧ c ≤ 'F' then some (c.toNat - 55)
  else none

/-- The number that hexadecimal digits write, `none` for no digit or another character. -/
def hexNumber? (digits : List Char) : Option Nat :=
  if digits.isEmpty then none
  else (digits.mapM hexDigit?).map fun values => values.foldl (fun n d => 16 * n + d) 0

/-- The character of a code point, `none` for a surrogate or a number past the last one. -/
def codePoint? (code : Nat) : Option Char :=
  if code < 0xD800 ∨ (0xDFFF < code ∧ code < 0x110000) then some (Char.ofNat code) else none

/-- A code point in exactly `count` digits, or in braces. -/
def readHex (count : Nat) : List Char → Option (Char × List Char)
  | '{' :: rest =>
    let digits := rest.takeWhile (· != '}')
    match rest.dropWhile (· != '}') with
    | _ :: rest => do return (← (← hexNumber? digits) |> codePoint?, rest)
    | [] => none
  | text =>
    if text.length < count then none
    else do return (← (← hexNumber? (text.take count)) |> codePoint?, text.drop count)

/-- The names of the places at a word's borders. -/
def wordAnchor? (name : List Char) : Option Anchor :=
  if name = "start".toList then some .wordStart
  else if name = "end".toList then some .wordEnd
  else if name = "start-half".toList then some .noWordBefore
  else if name = "end-half".toList then some .noWordAfter
  else none

/-- A named place in braces after `\b`.  Braces that do not begin with a letter or a hyphen are
left for a counted repetition. -/
def readWordAnchor : List Char → Option (Anchor × List Char)
  | '{' :: c :: rest =>
    if c.isAlpha || c == '-' then
      let inName := fun (d : Char) => d.isAlpha || d == '-'
      match (c :: rest).dropWhile inName with
      | '}' :: after => (wordAnchor? ((c :: rest).takeWhile inName)).map (·, after)
      | _ => none
    else some (.wordBoundary, '{' :: c :: rest)
  | ['{'] => none
  | text => some (.wordBoundary, text)

/-- An escape, from the character behind the backslash on.  Any ASCII character but a letter, a
digit or an angle may be escaped to stand for itself. -/
def readEscape : List Char → Option (Escape × List Char)
  | [] => none
  | 'x' :: rest => (readHex 2 rest).map fun (c, rest) => (.char c, rest)
  | 'u' :: rest => (readHex 4 rest).map fun (c, rest) => (.char c, rest)
  | 'U' :: rest => (readHex 8 rest).map fun (c, rest) => (.char c, rest)
  | 'd' :: rest => some (.set .decimal, rest)
  | 'D' :: rest => some (.set (.complement .decimal), rest)
  | 's' :: rest => some (.set .blank, rest)
  | 'S' :: rest => some (.set (.complement .blank), rest)
  | 'w' :: rest => some (.set .word, rest)
  | 'W' :: rest => some (.set (.complement .word), rest)
  | 'a' :: rest => some (.char '\x07', rest)
  | 'f' :: rest => some (.char '\x0c', rest)
  | 't' :: rest => some (.char '\t', rest)
  | 'n' :: rest => some (.char '\n', rest)
  | 'r' :: rest => some (.char '\r', rest)
  | 'v' :: rest => some (.char '\x0b', rest)
  | 'A' :: rest => some (.anchor .textStart, rest)
  | 'z' :: rest => some (.anchor .textEnd, rest)
  | 'B' :: rest => some (.anchor .noWordBoundary, rest)
  | 'b' :: rest => (readWordAnchor rest).map fun (a, rest) => (.anchor a, rest)
  | '<' :: rest => some (.anchor .wordStart, rest)
  | '>' :: rest => some (.anchor .wordEnd, rest)
  | c :: rest =>
    if c.toNat < 128 ∧ !c.isAlphanum then some (.char c, rest) else none

/-! ## 3. Named ASCII classes -/

/-- The set of a named ASCII class. -/
def asciiClass? (name : List Char) : Option CharSet :=
  (List.lookup (String.ofList name) [
    ("alnum", [('0', '9'), ('A', 'Z'), ('a', 'z')]),
    ("alpha", [('A', 'Z'), ('a', 'z')]),
    ("ascii", [('\x00', '\x7f')]),
    ("blank", [('\t', '\t'), (' ', ' ')]),
    ("cntrl", [('\x00', '\x1f'), ('\x7f', '\x7f')]),
    ("digit", [('0', '9')]),
    ("graph", [('!', '~')]),
    ("lower", [('a', 'z')]),
    ("print", [(' ', '~')]),
    ("punct", [('!', '/'), (':', '@'), ('\x5b', '\x60'), ('\x7b', '~')]),
    ("space", [('\t', '\r'), (' ', ' ')]),
    ("upper", [('A', 'Z')]),
    ("word", [('0', '9'), ('A', 'Z'), ('_', '_'), ('a', 'z')]),
    ("xdigit", [('0', '9'), ('A', 'F'), ('a', 'f')])]).map CharSet.ofRanges

/-- A named class from the character behind its opening bracket on: colon, perhaps a caret, the
name, a colon and the closing bracket. -/
def readAsciiClass (flags : Flags) : List Char → Option (CharSet × List Char)
  | ':' :: text =>
    let (negated, text) :=
      match text with
      | '^' :: rest => (true, rest)
      | _ => (false, text)
    match text.dropWhile (· != ':') with
    | ':' :: ']' :: rest =>
      (asciiClass? (text.takeWhile (· != ':'))).map fun set =>
        (if negated then .complement (flags.cased set) else flags.cased set, rest)
    | _ => none
  | _ => none

/-! ## 4. Brackets -/

/-- The operations on sets in brackets. -/
inductive SetOperation where
  | intersection
  | difference
  | symmetricDifference

/-- Both sets put together. -/
def SetOperation.apply : SetOperation → CharSet → CharSet → CharSet
  | intersection => .intersection
  | difference => .difference
  | symmetricDifference => .symmetricDifference

/-- An open bracket: whether its set is negated, an operation with its left side, and the members
read since. -/
structure Bracket where
  negated : Bool
  pending : Option (SetOperation × CharSet)
  members : CharSet

namespace Bracket

/-- The bracket with more members. -/
def add (b : Bracket) (set : CharSet) : Bracket := { b with members := .union b.members set }

/-- The set so far.  The sides of an operation are taken without regard to case if the flag says
so. -/
def current (flags : Flags) (b : Bracket) : CharSet :=
  match b.pending with
  | none => b.members
  | some (operation, left) => operation.apply (flags.cased left) (flags.cased b.members)

/-- The bracket with an operation that waits for its right side. -/
def operate (flags : Flags) (operation : SetOperation) (b : Bracket) : Bracket :=
  { b with pending := some (operation, b.current flags), members := .none }

/-- The set of a bracket that is closed. -/
def close (flags : Flags) (b : Bracket) : CharSet :=
  let set := flags.cased (b.current flags)
  if b.negated then .complement set else set

/-- A bracket from the character behind its opening on: perhaps a caret, then hyphens that stand
for themselves, or a closing bracket that does. -/
def opening (text : List Char) : Bracket × List Char :=
  let (negated, text) :=
    match text with
    | '^' :: rest => (true, rest)
    | _ => (false, text)
  match text with
  | '-' :: _ => (⟨negated, none, .single '-'⟩, text.dropWhile (· == '-'))
  | ']' :: rest => (⟨negated, none, .single ']'⟩, rest)
  | _ => (⟨negated, none, .none⟩, text)

end Bracket

/-- A member of a bracket: a character or an escape that is not an anchor. -/
def readMember : List Char → Option (Escape × List Char)
  | '\\' :: rest =>
    match readEscape rest with
    | some (.anchor _, _) => none
    | other => other
  | c :: rest => some (.char c, rest)
  | [] => none

/-- A member or a range.  A hyphen makes a range unless a closing bracket or another hyphen
follows it. -/
def readRange (text : List Char) : Option (CharSet × List Char) := do
  let (member, rest) ← readMember text
  let single := match member with
    | .char c => CharSet.single c
    | .set s => s
    | .anchor _ => CharSet.none
  match rest with
  | '-' :: ']' :: _ => return (single, rest)
  | '-' :: '-' :: _ => return (single, rest)
  | '-' :: rest =>
    match member, ← readMember rest with
    | .char first, (.char last, rest) => if first ≤ last then return (.range first last, rest) else none
    | _, _ => none
  | _ => return (single, rest)

/-- Brackets from inside the innermost open one on; the open ones around it are given, the
innermost first.  Every round takes a character, so `fuel` is the number of characters. -/
def readBrackets (flags : Flags) : Nat → Bracket → List Bracket → List Char →
    Option (CharSet × List Char)
  | 0, _, _, _ => none
  | fuel + 1, b, outer, text =>
    match text with
    | [] => none
    | '[' :: rest =>
      match readAsciiClass flags rest with
      | some (set, rest) => readBrackets flags fuel (b.add set) outer rest
      | none =>
        let (inner, rest) := Bracket.opening rest
        readBrackets flags fuel inner (b :: outer) rest
    | ']' :: rest =>
      match outer with
      | [] => some (b.close flags, rest)
      | around :: outer => readBrackets flags fuel (around.add (b.close flags)) outer rest
    | '&' :: '&' :: rest => readBrackets flags fuel (b.operate flags .intersection) outer rest
    | '-' :: '-' :: rest => readBrackets flags fuel (b.operate flags .difference) outer rest
    | '~' :: '~' :: rest =>
      readBrackets flags fuel (b.operate flags .symmetricDifference) outer rest
    | text => do
      let (set, rest) ← readRange text
      readBrackets flags fuel (b.add set) outer rest

/-- A bracketed set from the character behind its opening bracket on. -/
def readBracket (flags : Flags) (text : List Char) : Option (CharSet × List Char) :=
  let (b, rest) := Bracket.opening text
  readBrackets flags (text.length + 1) b [] rest

end TaggedText.Pattern
