/-
# Choosing one span from each list

The rows of a product are enumerated by a counter with one digit per list, the last digit running
fastest.  A selection keeps the rows that a test accepts.  The test may have effects, which take
place row by row in the order of the counter.

An extended selection takes rows that exist already, adds one span from each of further lists, and
hands the test the columns it asks for, in its own order.  Columns go by number, and the answer has
them in increasing order.
-/
import TaggedText.Fault

namespace TaggedText.Selection

variable {m : Type → Type} [Monad m]

/-! ## 1. The counter -/

/-- The counter's next reading, `none` after the last one.  A digit that has reached its radix goes
back to 0 and carries. -/
def advance : List Nat → List Nat → Option (List Nat)
  | radix :: radices, digit :: digits =>
    match advance radices digits with
    | some later => some (digit :: later)
    | none =>
      if digit + 1 < radix then some ((digit + 1) :: digits.map fun _ => 0) else none
  | _, _ => none

/-- The readings from one on, at most `fuel` of them. -/
def readingsFrom (radices : List Nat) : Nat → List Nat → List (List Nat)
  | 0, _ => []
  | fuel + 1, digits =>
    digits ::
      match advance radices digits with
      | none => []
      | some later => readingsFrom radices fuel later

/-- All readings of a counter; none without digits or with a radix of 0.  There are as many as the
product of the radices. -/
def readings (radices : List Nat) : List (List Nat) :=
  if radices.isEmpty || radices.contains 0 then []
  else readingsFrom radices (radices.foldl (· * ·) 1) (radices.map fun _ => 0)

/-! ## 2. Rows of a product -/

/-- The spans that the digits choose from the lists. -/
def choose (lists : List (List Span)) (digits : List Nat) : Row :=
  (lists.zip digits).filterMap fun (spans, digit) => spans[digit]?

/-- The rows of the product of lists. -/
def product (lists : List (List Span)) : List Row :=
  (readings (lists.map List.length)).map (choose lists)

/-- The members that a test accepts, in order. -/
def keep {α : Type} (test : α → m Bool) : List α → m (List α)
  | [] => pure []
  | a :: rest => do
    if ← test a then
      let kept ← keep test rest
      return a :: kept
    else keep test rest

/-- **A test without effects keeps what a filter keeps.** -/
theorem keep_pure {α : Type} (test : α → Bool) (as : List α) :
    keep (m := Id) (fun a => pure (test a)) as = pure (as.filter test) := by
  induction as with
  | nil => rfl
  | cons a rest ih =>
    unfold keep
    rw [ih]
    cases h : test a <;> simp [h]

/-- The rows of the product of lists that a test accepts. -/
def select (test : Row → m Bool) (lists : List (List Span)) : m (List Row) :=
  keep test (product lists)

/-- What an aggregate makes of the members that a test accepts, in order; it is made of a member
before the next one is tested. -/
def gather {α β : Type} (test : α → m Bool) (aggregate : α → m β) : List α → m (List β)
  | [] => pure []
  | a :: rest => do
    if ← test a then
      let made ← aggregate a
      let others ← gather test aggregate rest
      return made :: others
    else gather test aggregate rest

/-- **Without effects, it is made of what a filter keeps.** -/
theorem gather_pure {α β : Type} (test : α → Bool) (aggregate : α → β) (as : List α) :
    gather (m := Id) (fun a => pure (test a)) (fun a => pure (aggregate a)) as =
      pure ((as.filter test).map aggregate) := by
  induction as with
  | nil => rfl
  | cons a rest ih =>
    unfold gather
    rw [ih]
    cases h : test a <;> simp [h]

/-- Taking the members themselves keeps them. -/
theorem gather_itself [LawfulMonad m] {α : Type} (test : α → m Bool) (as : List α) :
    gather test pure as = keep test as := by
  induction as with
  | nil => rfl
  | cons a rest ih =>
    unfold gather keep
    simp only [ih, pure_bind]

/-- What an aggregate makes of the rows of the product of lists that a test accepts. -/
def selectWith {α : Type} (test : Row → m Bool) (aggregate : Row → m α)
    (lists : List (List Span)) : m (List α) :=
  gather test aggregate (product lists)

/-- **A selection is one whose aggregate leaves the rows as they are.** -/
theorem selectWith_itself [LawfulMonad m] (test : Row → m Bool) (lists : List (List Span)) :
    selectWith test pure lists = select test lists :=
  gather_itself test (product lists)

/-! ## 3. Extending rows -/

/-- The column numbers of an extended selection: the test's arguments, the columns of the rows that
exist, and the added ones. -/
structure Columns where
  arguments : List Nat
  rows : List Nat
  added : List Nat
deriving DecidableEq

namespace Columns

/-- No column comes twice. -/
def distinct (columns : List Nat) : Bool := columns.eraseDups.length == columns.length

/-- The column numbers of the answer, after a check.  No list may have a column twice, and the added
columns must be the arguments that the rows lack. -/
def output (c : Columns) : Except Clash (List Nat) :=
  if !(distinct c.arguments && distinct c.rows && distinct c.added) then
    .error (.selectionTwice c.rows c.added c.arguments)
  else
    let missing := c.arguments.filter fun column => !c.rows.contains column
    if missing.all c.added.contains && c.added.all missing.contains then
      .ok ((c.rows ++ c.added).mergeSort)
    else .error (.wrongAdded c.added)

end Columns

/-- Where the span of a column comes from: an existing row, or one of the added lists. -/
inductive Source where
  | row (index : Nat)
  | added (index : Nat)
deriving DecidableEq

/-- The source of a column, existing rows first. -/
def Columns.source (c : Columns) (column : Nat) : Source :=
  match c.rows.idxOf? column with
  | some i => .row i
  | none => .added (c.added.idxOf column)

/-- The span of a source, for an existing row and the spans chosen from the added lists. -/
def Source.span? (row chosen : Row) : Source → Option Span
  | .row i => row[i]?
  | .added i => chosen[i]?

/-- Existing rows with the spans chosen for them, the rows running slowest. -/
def candidates (rows : List Row) (lists : List (List Span)) : List (Row × Row) :=
  (readings (rows.length :: lists.map List.length)).filterMap fun digits =>
    match digits with
    | [] => none
    | digit :: others => rows[digit]?.map fun row => (row, choose lists others)

/-- The columns of the answer and its rows: existing rows with one span added from each list, of
which the test accepts the arguments. -/
def extend (test : Row → m Bool) (rows : List Row) (lists : List (List Span)) (c : Columns) :
    ExceptT Clash m (List Nat × List Row) := do
  let output ← c.output
  if lists.length ≠ c.added.length then throw (.wrongCount lists.length c.added)
  let arguments := c.arguments.map c.source
  let sources := output.map c.source
  let kept ← ExceptT.lift <| keep
    (fun (row, chosen) => test (arguments.filterMap (Source.span? row chosen)))
    (candidates rows lists)
  return (output, kept.map fun (row, chosen) => sources.filterMap (Source.span? row chosen))

end TaggedText.Selection
