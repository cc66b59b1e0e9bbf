/-
# Reading formulas

Operators bind from loosest to tightest: `or`; `and`; the comparisons; `|`; `~`; `&`; the shifts;
`..`; `+` and `-`; `*`, `/`, `//` and `%`; the operators on one value; `^`.  Those of one rank associate
to the left, except that `..` and `^` associate to the right.

A text is read as a formula that answers with its terms if it can be, and as a block of statements
otherwise.  A block ends with the text or before a word that closes it, and nothing follows an answer
in its block.
-/
import TaggedText.Formula.Term
import TaggedText.Formula.Token

namespace TaggedText.Formula.Reader

/-! ## 1. Words one by one -/

/-- Reading takes words from the front of a list, and may fail. -/
abbrev Reading := StateT (List Token) Option

/-- The next word is this sign. -/
def sees (s : String) : Reading Bool := do
  match ← get with
  | .sign t :: _ => return t = s
  | _ => return false

/-- The next word is one of these signs. -/
def seesAny (ss : List String) : Reading Bool := do
  match ← get with
  | .sign t :: _ => return ss.contains t
  | _ => return false

/-- This sign is taken if it is the next word. -/
def takes (s : String) : Reading Bool := do
  match ← get with
  | .sign t :: rest =>
    if t = s then set rest
    return t = s
  | _ => return false

/-- The next word has to be this sign. -/
def expect (s : String) : Reading Unit := do
  if ← takes s then return
  failure

/-- The next word has to be a name. -/
def nameHere : Reading String := do
  match ← get with
  | .name n :: rest =>
    set rest
    return n
  | _ => failure

/-! ## 2. Operators -/

/-- How an operator on two terms makes a term of them. -/
abbrev Join := Term → Term → Term

/-- The operators on two terms, with how strongly they bind to the left and to the right. -/
def joins : List (String × Nat × Nat × Join) := [
  ("or", 1, 1, .either), ("and", 2, 2, .both),
  ("<", 3, 3, .binary .less), (">", 3, 3, fun a b => .binary .less b a),
  ("<=", 3, 3, .binary .atMost), (">=", 3, 3, fun a b => .binary .atMost b a),
  ("==", 3, 3, .binary .equal), ("~=", 3, 3, fun a b => .unary .not (.binary .equal a b)),
  ("|", 4, 4, .binary .bitOr), ("~", 5, 5, .binary .bitXor), ("&", 6, 6, .binary .bitAnd),
  ("<<", 7, 7, .binary .shiftLeft), (">>", 7, 7, .binary .shiftRight),
  ("..", 9, 8, .binary .concatenate),
  ("+", 10, 10, .binary .add), ("-", 10, 10, .binary .subtract),
  ("*", 11, 11, .binary .multiply), ("/", 11, 11, .binary .divide),
  ("//", 11, 11, .binary .floorDivide), ("%", 11, 11, .binary .modulo),
  ("^", 14, 13, .binary .power)]

/-- How strongly the operators on one term bind. -/
def unaryStrength : Nat := 12

/-- The operators on one term. -/
def unaries : List (String × (Term → Term)) := [
  ("not", .unary .not), ("-", .unary .minus), ("~", .unary .complement), ("#", .length)]

/-- The operator at the next word, if it binds more strongly to the left than a limit. -/
def joinAbove? (limit : Nat) : Reading (Option (Nat × Join)) := do
  match ← get with
  | .sign s :: rest =>
    match joins.lookup s with
    | some (left, right, join) =>
      if limit < left then
        set rest
        return some (right, join)
      else return none
    | none => return none
  | _ => return none

/-- The operator on one term at the next word. -/
def unary? : Reading (Option (Term → Term)) := do
  match ← get with
  | .sign s :: rest =>
    match unaries.lookup s with
    | some make =>
      set rest
      return some make
    | none => return none
  | _ => return none

/-- The constant at the next word. -/
def constant? : Reading (Option Term) := do
  match ← get with
  | .constant v :: rest =>
    set rest
    return some (.constant v)
  | .sign "nil" :: rest =>
    set rest
    return some (.constant .nil)
  | .sign "true" :: rest =>
    set rest
    return some (.constant (.truth true))
  | .sign "false" :: rest =>
    set rest
    return some (.constant (.truth false))
  | .sign "..." :: rest =>
    set rest
    return some .arguments
  | _ => return none

/-! ## 3. Terms

Each step takes a word or goes one rule down in the grammar, so that a small multiple of the number
of words bounds the depth. -/

mutual

/-- A term of operators that bind more strongly to the left than a limit. -/
def term : Nat → Nat → Reading Term
  | 0, _ => failure
  | fuel + 1, limit => do
    let first ← match ← unary? with
      | some make => make <$> term fuel unaryStrength
      | none => simple fuel
    joined fuel limit first

/-- A term that has begun, with the operators that follow. -/
def joined : Nat → Nat → Term → Reading Term
  | 0, _, _ => failure
  | fuel + 1, limit, left => do
    match ← joinAbove? limit with
    | some (strength, join) => do
      let right ← term fuel strength
      joined fuel limit (join left right)
    | none => return left

/-- A term without operators. -/
def simple : Nat → Reading Term
  | 0 => failure
  | fuel + 1 => do
    match ← constant? with
    | some t => return t
    | none =>
      if ← sees "\x7b" then newTable fuel
      else primary fuel

/-- A name or a term in parentheses, and what is selected from it. -/
def primary : Nat → Reading Term
  | 0 => failure
  | fuel + 1 => do
    if ← takes "(" then
      let t ← term fuel 0
      expect ")"
      selected fuel (.grouped t)
    else
      let n ← nameHere
      selected fuel (.name n)

/-- A term that has begun, with the fields and calls that follow. -/
def selected : Nat → Term → Reading Term
  | 0, _ => failure
  | fuel + 1, t => do
    if ← takes "." then
      let n ← nameHere
      selected fuel (.index t (.constant (.ofString n)))
    else if ← takes "[" then
      let key ← term fuel 0
      expect "]"
      selected fuel (.index t key)
    else if ← takes ":" then
      let n ← nameHere
      match ← callArguments? fuel with
      | some ts => selected fuel (.call (.index t (.constant (.ofString n))) ts)
      | none => failure
    else
      match ← callArguments? fuel with
      | some ts => selected fuel (.call t ts)
      | none => return t

/-- The arguments of a call, if there are any here: a list in parentheses, a text or a table. -/
def callArguments? : Nat → Reading (Option (List Term))
  | 0 => failure
  | fuel + 1 => do
    match ← get with
    | .constant (.text bytes) :: rest =>
      set rest
      return some [.constant (.text bytes)]
    | .sign "\x7b" :: _ => return some [← newTable fuel]
    | .sign "(" :: .sign ")" :: rest =>
      set rest
      return some []
    | .sign "(" :: rest =>
      set rest
      let ts ← terms fuel
      expect ")"
      return some ts
    | _ => return none

/-- Terms between commas. -/
def terms : Nat → Reading (List Term)
  | 0 => failure
  | fuel + 1 => do
    let t ← term fuel 0
    if ← takes "," then return t :: (← terms fuel)
    return [t]

/-- A new table. -/
def newTable : Nat → Reading Term
  | 0 => failure
  | fuel + 1 => do
    expect "\x7b"
    return .table (← fields fuel)

/-- The parts of a new table up to its closing brace. -/
def fields : Nat → Reading (List Field)
  | 0 => failure
  | fuel + 1 => do
    if ← takes "\x7d" then return []
    let f ← field fuel
    if ← takes "," then return f :: (← fields fuel)
    if ← takes ";" then return f :: (← fields fuel)
    expect "\x7d"
    return [f]

/-- A part of a new table. -/
def field : Nat → Reading Field
  | 0 => failure
  | fuel + 1 => do
    match ← get with
    | .name n :: .sign "=" :: rest =>
      set rest
      return .entry (.constant (.ofString n)) (← term fuel 0)
    | .sign "[" :: rest =>
      set rest
      let key ← term fuel 0
      expect "]"
      expect "="
      return .entry key (← term fuel 0)
    | _ => return .item (← term fuel 0)

end

/-! ## 4. Statements -/

/-- The block ends here. -/
def endsBlock : Reading Bool := do
  if (← get).isEmpty then return true
  seesAny ["else", "elseif", "end", "until"]

/-- Names between commas. -/
def names : Nat → Reading (List String)
  | 0 => failure
  | fuel + 1 => do
    let n ← nameHere
    if ← takes "," then return n :: (← names fuel)
    return [n]

/-- The term can be assigned to. -/
def isTarget : Term → Bool
  | .name _ => true
  | .index _ _ => true
  | _ => false

/-- The term is a call. -/
def isCall : Term → Bool
  | .call _ _ => true
  | _ => false

/-- The targets of an assignment up to its sign. -/
def targets : Nat → Term → Reading (List Term)
  | 0, _ => failure
  | fuel + 1, t => do
    if !isTarget t then failure
    if ← takes "," then return t :: (← targets fuel (← primary fuel))
    expect "="
    return [t]

/-- An assignment or a call. -/
def action (fuel : Nat) : Reading Statement := do
  let t ← primary fuel
  if ← seesAny ["=", ","] then
    let ts ← targets fuel t
    return .assign ts (← terms fuel)
  if isCall t then return .perform t
  failure

/-- The values of an answer, behind its word, up to the end of the block. -/
def answer (fuel : Nat) : Reading Statement := do
  let values ← if (← endsBlock) || (← sees ";") then pure [] else terms fuel
  let _ ← takes ";"
  if ← endsBlock then return .answer values
  failure

/-- A declaration, behind its word. -/
def declaration (fuel : Nat) : Reading Statement := do
  let ns ← names fuel
  if ← takes "=" then return .declare ns (← terms fuel)
  return .declare ns []

mutual

/-- The statements of a block.  Within a loop the loop can be left. -/
def block : Nat → Bool → Reading (List Statement)
  | 0, _ => failure
  | fuel + 1, inLoop => do
    if ← endsBlock then return []
    if ← takes ";" then block fuel inLoop
    else if ← takes "return" then return [← answer fuel]
    else
      let s ← statement fuel inLoop
      return s :: (← block fuel inLoop)

/-- A statement other than an answer. -/
def statement : Nat → Bool → Reading Statement
  | 0, _ => failure
  | fuel + 1, inLoop => do
    if ← takes "if" then conditional fuel inLoop
    else if ← takes "while" then
      let test ← term fuel 0
      expect "do"
      let body ← block fuel true
      expect "end"
      return .whileTrue test body
    else if ← takes "do" then
      let body ← block fuel inLoop
      expect "end"
      return .block body
    else if ← takes "for" then
      let n ← nameHere
      expect "="
      let first ← term fuel 0
      expect ","
      let last ← term fuel 0
      let step ← if ← takes "," then term fuel 0 else pure (.constant (.integer 1))
      expect "do"
      let body ← block fuel true
      expect "end"
      return .count n first last step body
    else if ← takes "repeat" then
      let body ← block fuel true
      expect "until"
      return .untilTrue body (← term fuel 0)
    else if ← takes "local" then declaration fuel
    else if ← takes "break" then
      if inLoop then return .leave
      failure
    else action fuel

/-- A conditional, behind `if` or `elseif`. -/
def conditional : Nat → Bool → Reading Statement
  | 0, _ => failure
  | fuel + 1, inLoop => do
    let test ← term fuel 0
    expect "then"
    let yes ← block fuel inLoop
    if ← takes "elseif" then return .branch test yes [← conditional fuel inLoop]
    let no ← if ← takes "else" then block fuel inLoop else pure []
    expect "end"
    return .branch test yes no

end

/-! ## 5. Formulas -/

/-- The block that some words are. -/
def program? (words : List Token) : Option (List Statement) :=
  match (block (16 * words.length + 16) false).run words with
  | some (body, []) => some body
  | _ => none

/-- The text is a block. -/
def isBlock (text : List Char) : Bool := ((Token.ofText? text).bind program?).isSome

/-- The block that a text is, or that the answer with its terms is. -/
def read? (text : List Char) : Option (List Statement) := do
  let words ← Token.ofText? text
  program? (.sign "return" :: words) <|> program? words

end TaggedText.Formula.Reader
