/-
# Reading patterns

The notation for patterns is read from left to right with a stack of open groups.  A flag setting
holds up to the end of the group it stands in, alternatives behind it included.  Groups are
numbered by their opening parentheses.  Refused are look-around, references back, names given
twice, repetitions of nothing, anything left open, and patterns that nest too deeply or become too
large when their repetitions are written out.
-/
import TaggedText.Pattern.Bracket

namespace TaggedText.Pattern

open Text (isAlphabetic isAlphanumeric isBlank dropBlanks)

/-! ## 1. Open groups -/

/-- A pattern with the depth of its nesting. -/
structure Nested where
  pattern : Pattern
  depth : Nat

/-- What stands in a sequence: a pattern, or a flag setting, which cannot be repeated. -/
abbrev Item := Option Nested

/-- A group that is open: its number if it has one, the flags outside of it, the alternatives that
are complete and the items of the current one, each with the last one first. -/
structure Frame where
  index : Option Nat := none
  outerFlags : Flags := {}
  alternatives : List Nested := []
  items : List Item := []

/-- The greatest depth. -/
def deepest (parts : List Nested) : Nat := (parts.map Nested.depth).foldl max 0

/-- The items as one alternative. -/
def Frame.alternative (f : Frame) : Nested :=
  let parts := f.items.reverse.filterMap id
  ⟨sequence (parts.map Nested.pattern),
    if f.items.length ≤ 1 then deepest parts else deepest parts + 1⟩

/-- The frame's contents as one pattern. -/
def Frame.contents (f : Frame) : Nested :=
  match f.alternatives with
  | [] => f.alternative
  | _ :: _ =>
    let parts := (f.alternative :: f.alternatives).reverse
    ⟨oneOf (parts.map Nested.pattern), deepest parts + 1⟩

/-- How far the reading has got. -/
structure Reading where
  flags : Flags := {}
  /-- The number of numbered groups so far. -/
  groups : Nat := 0
  names : List (List Char) := []
  frame : Frame := {}
  outer : List Frame := []

namespace Reading

/-- One more item in the current sequence. -/
def push (r : Reading) (item : Item) : Reading :=
  { r with frame := { r.frame with items := item :: r.frame.items } }

/-- A pattern without parts as the next item. -/
def pushSimple (r : Reading) (p : Pattern) : Reading := r.push (some ⟨p, 0⟩)

/-- The next alternative begins. -/
def bar (r : Reading) : Reading :=
  { r with frame := { r.frame with
      alternatives := r.frame.alternative :: r.frame.alternatives, items := [] } }

/-- A group is opened, with the flags inside of it. -/
def openGroup (r : Reading) (index : Option Nat) (inside : Flags) : Reading :=
  { r with
    flags := inside
    frame := { index := index, outerFlags := r.flags }
    outer := r.frame :: r.outer }

/-- A numbered group is opened. -/
def openNumbered (r : Reading) : Reading :=
  let r := { r with groups := r.groups + 1 }
  r.openGroup (some r.groups) r.flags

/-- The innermost group is closed. -/
def closeGroup (r : Reading) : Option Reading :=
  match r.outer with
  | [] => none
  | around :: outer =>
    let inner := r.frame.contents
    let p := match r.frame.index with
      | some n => group n inner.pattern
      | none => inner.pattern
    some ({ r with flags := r.frame.outerFlags, frame := around, outer := outer }.push
      (some ⟨p, inner.depth + 1⟩))

/-- The last item is repeated. -/
def repeatLast (r : Reading) (least : Nat) (most : Option Nat) (greedy : Bool) : Option Reading :=
  match r.frame.items with
  | some last :: items =>
    let p := rounds (greedy != r.flags.swapGreed) least most last.pattern
    some { r with frame := { r.frame with items := some ⟨p, last.depth + 1⟩ :: items } }
  | _ => none

end Reading

/-! ## 2. Pieces of the notation -/

/-- The largest count of a repetition. -/
def largestCount : Nat := 4294967295

/-- A count: decimal digits, with white space around them. -/
def readCount (text : List Char) : Option Nat × List Char :=
  let text := dropBlanks text
  let digits := text.takeWhile Char.isDigit
  let rest := dropBlanks (text.dropWhile Char.isDigit)
  (if digits.isEmpty then none
   else some (digits.foldl (fun n d => 10 * n + (d.toNat - 48)) 0), rest)

/-- The counts of a repetition, from behind the opening brace to behind the closing one. -/
def readCounts (text : List Char) : Option (Nat × Option Nat × List Char) := do
  let (least, rest) := readCount text
  let least ← least
  if largestCount < least then none
  match rest with
  | '}' :: rest => return (least, some least, rest)
  | ',' :: rest =>
    match dropBlanks rest with
    | '}' :: rest => return (least, none, rest)
    | _ =>
      let (most, rest) := readCount rest
      let most ← most
      if largestCount < most ∨ most < least then none
      match rest with
      | '}' :: rest => return (least, some most, rest)
      | _ => none
  | _ => none

/-- A question mark behind a repetition makes it prefer fewer rounds. -/
def readGreed : List Char → Bool × List Char
  | '?' :: rest => (false, rest)
  | text => (true, text)

/-- Whether a character may stand in a group's name. -/
def inGroupName (first : Bool) (c : Char) : Bool :=
  c == '_' ||
    if first then isAlphabetic c
    else isAlphanumeric c || c == '.' || c == '\x5b' || c == ']'

/-- A group's name up to and without the angle that ends it. -/
def readGroupName (text : List Char) : Option (List Char × List Char) :=
  let name := text.takeWhile (· != '>')
  match name, text.dropWhile (· != '>') with
  | first :: others, _ :: rest =>
    if inGroupName true first && others.all (inGroupName false) then some (name, rest) else none
  | _, _ => none

/-- A flag is switched on or off; `none` for a letter that is no flag. -/
def Flags.set? (flags : Flags) (letter : Char) (on : Bool) : Option Flags :=
  if letter = 'i' then some { flags with anyCase := on }
  else if letter = 'm' then some { flags with multiLine := on }
  else if letter = 's' then some { flags with dotAll := on }
  else if letter = 'U' then some { flags with swapGreed := on }
  else if letter = 'u' ∧ on = true then some flags
  else none

/-- Flag letters, a hyphen before those to be switched off, up to a colon or a closing
parenthesis, which is returned.  No letter may come twice, and the hyphen only once and not
last. -/
def readFlags (flags : Flags) (on : Bool) (seen : List Char) :
    List Char → Option (Flags × List Char × Char × List Char)
  | [] => none
  | c :: rest =>
    if c = ':' ∨ c = ')' then
      if seen.head? = some '-' then none else some (flags, seen, c, rest)
    else if seen.contains c then none
    else if c = '-' then readFlags flags false (c :: seen) rest
    else do
      let flags ← flags.set? c on
      readFlags flags on (c :: seen) rest

/-- What follows an opening parenthesis: a group, or a flag setting. -/
def readGroup (r : Reading) : List Char → Option (Reading × List Char)
  | '?' :: '=' :: _ => none
  | '?' :: '!' :: _ => none
  | '?' :: '<' :: '=' :: _ => none
  | '?' :: '<' :: '!' :: _ => none
  | '?' :: 'P' :: '<' :: rest => named rest
  | '?' :: '<' :: rest => named rest
  | '?' :: rest => do
    let (flags, seen, last, rest) ← readFlags r.flags true [] rest
    if last = ')' then
      if seen.isEmpty then none else return ({ r with flags := flags }.push none, rest)
    else return (r.openGroup none flags, rest)
  | rest => some (r.openNumbered, rest)
where
  named (rest : List Char) : Option (Reading × List Char) := do
    let (name, rest) ← readGroupName rest
    if r.names.contains name then none
    return ({ r with names := name :: r.names }.openNumbered, rest)

/-! ## 3. Patterns -/

/-- The next piece of the notation. -/
def readPiece (r : Reading) : List Char → Option (Reading × List Char)
  | [] => none
  | '(' :: rest => readGroup r rest
  | ')' :: rest => r.closeGroup.map (·, rest)
  | '|' :: rest => some (r.bar, rest)
  | '[' :: rest =>
    (readBracket r.flags rest).map fun (set, rest) => (r.push (some ⟨one set, 1⟩), rest)
  | '?' :: rest =>
    let (greedy, rest) := readGreed rest
    (r.repeatLast 0 (some 1) greedy).map (·, rest)
  | '*' :: rest =>
    let (greedy, rest) := readGreed rest
    (r.repeatLast 0 none greedy).map (·, rest)
  | '+' :: rest =>
    let (greedy, rest) := readGreed rest
    (r.repeatLast 1 none greedy).map (·, rest)
  | '{' :: rest => do
    let (least, most, rest) ← readCounts rest
    let (greedy, rest) := readGreed rest
    return (← r.repeatLast least most greedy, rest)
  | '\\' :: rest =>
    (readEscape rest).map fun (escape, rest) =>
      (r.pushSimple (match escape with
        | .char c => one (r.flags.cased (.single c))
        | .set s => one s
        | .anchor a => Pattern.anchor a), rest)
  | '.' :: rest => some (r.pushSimple (one (if r.flags.dotAll then .any else .notLineFeed)), rest)
  | '^' :: rest =>
    some (r.pushSimple (.anchor (if r.flags.multiLine then .lineStart else .textStart)), rest)
  | '$' :: rest =>
    some (r.pushSimple (.anchor (if r.flags.multiLine then .lineEnd else .textEnd)), rest)
  | c :: rest => some (r.pushSimple (one (r.flags.cased (.single c))), rest)

/-- All pieces of the notation; every piece takes a character, so `fuel` is their number. -/
def readPieces : Nat → Reading → List Char → Option Reading
  | _, r, [] => some r
  | 0, _, _ :: _ => none
  | fuel + 1, r, text => do
    let (r, rest) ← readPiece r text
    readPieces fuel r rest

/-- The greatest depth of nesting. -/
def depthLimit : Nat := 250

/-- The greatest weight of a pattern. -/
def weightLimit : Nat := 327680

/-- The pattern that a notation writes, `none` if it is refused. -/
def read? (text : List Char) : Option Pattern := do
  let r ← readPieces text.length {} text
  if !r.outer.isEmpty then none
  let whole := r.frame.contents
  if depthLimit < whole.depth ∨ weightLimit < whole.pattern.weight then none
  return whole.pattern

end TaggedText.Pattern
