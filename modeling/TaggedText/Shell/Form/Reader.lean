/-
# Reading forms

A call is written as letters, an opening parenthesis, its arguments and a closing parenthesis;
arguments are separated by blanks or by a comma, which may stand in the middle of blanks.  A number
is written in digits, a text between double marks, which it cannot hold, and a symbol behind a
single mark.

The reader goes through the text character by character.  Its state is the calls that are open,
innermost first, and its place in the innermost one.  What it has not seen yet never changes what it
makes of what it has seen, except that a number, a symbol or the name of a call ends where a
character does not continue it; so **reading a text in pieces is reading the whole text**
(`read_append`), and a text breaks off early exactly when it ends inside a quoted text.

There are three ways to fail.  A text that does not begin with a form is a mismatch; one that begins
with a form that goes wrong later is a failure; one that ends inside a quoted text is incomplete and
may be continued.
-/
import TaggedText.Shell.Form
import TaggedText.Text.Numeric

namespace TaggedText.Shell.Form

/-! ## 1. Characters -/

/-- The largest number that can be written. -/
def largestNumber : Nat := 18446744073709551615

/-- A blank between forms: a space, a tab or the end of a line. -/
def isGap (c : Char) : Bool := c = ' ' || c = '\t' || c = '\r' || c = '\n'

/-- A character of a symbol. -/
def isSymbolic (c : Char) : Bool := Text.isAlphanumeric c || c = '_' || c = '-' || c = '.'

/-- The mark before a symbol. -/
def symbolMark : Char := '\x27'

/-- The mark around a text. -/
def textMark : Char := '\x22'

/-! ## 2. States -/

/-- Where the reader is.  Pieces read so far are held in reverse. -/
inductive Place where
  /-- At the very beginning. -/
  | outset
  /-- Behind an opening parenthesis. -/
  | opened
  /-- Behind a comma. -/
  | separated
  /-- Right behind a form. -/
  | behind
  /-- Behind a form and blanks. -/
  | apart
  /-- In the name of a call. -/
  | naming (letters : List Char)
  /-- Between the name of a call and its opening parenthesis. -/
  | named (letters : List Char)
  | inNumber (n : Nat)
  | inText (content : List Char)
  | inSymbol (name : List Char)

/-- A call whose parenthesis is open, with its arguments so far in reverse. -/
structure Opened where
  name : List Char
  arguments : List Form

/-- The open calls, innermost first, and the place. -/
structure State where
  calls : List Opened
  place : Place

/-- What comes of a text. -/
inductive Outcome where
  | form (f : Form) (rest : List Char)
  | incomplete
  | mismatch
  | failure

/-- What one character does. -/
inductive Step where
  | next (s : State)
  /-- A form is complete; the character may belong to it or to the rest. -/
  | done (f : Form) (taken : Bool)
  | mismatch
  | failure

/-! ## 3. Single steps -/

/-- A form that begins with this character. -/
def begin? (c : Char) : Option Place :=
  if c.isAlpha then some (.naming [c])
  else if c.isDigit then some (.inNumber (c.toNat - '0'.toNat))
  else if c = textMark then some (.inText [])
  else if c = symbolMark then some (.inSymbol [])
  else none

/-- What cannot be a form: at the outermost level nothing has been read then, and inside a call the
call cannot be finished. -/
def refuse : List Opened → Step
  | [] => .mismatch
  | _ :: _ => .failure

/-- A form is complete. -/
def finish (calls : List Opened) (f : Form) (taken : Bool) : Step :=
  match calls with
  | [] => .done f taken
  | inner :: outer => .next ⟨{ inner with arguments := f :: inner.arguments } :: outer, .behind⟩

/-- The innermost call is closed. -/
def close : List Opened → Step
  | [] => .mismatch
  | inner :: outer => finish outer (.call inner.name inner.arguments.reverse) true

/-- A form has to begin here. -/
def element (calls : List Opened) (c : Char) : Step :=
  match begin? c with
  | some place => .next ⟨calls, place⟩
  | none => refuse calls

/-- Behind a complete form inside a call. -/
def afterForm (calls : List Opened) (c : Char) : Step :=
  if isGap c then .next ⟨calls, .apart⟩
  else if c = ',' then .next ⟨calls, .separated⟩
  else if c = ')' then close calls
  else refuse calls

/-- A form ended before this character, which still has to be read. -/
def finishBefore (calls : List Opened) (f : Form) (c : Char) : Step :=
  match calls with
  | [] => .done f false
  | inner :: outer => afterForm ({ inner with arguments := f :: inner.arguments } :: outer) c

/-- What a character does in a state. -/
def State.step : State → Char → Step
  | ⟨calls, .outset⟩, c => element calls c
  | ⟨calls, .opened⟩, c =>
    if isGap c then .next ⟨calls, .opened⟩
    else if c = ')' then close calls
    else element calls c
  | ⟨calls, .separated⟩, c =>
    if isGap c then .next ⟨calls, .separated⟩ else element calls c
  | ⟨calls, .behind⟩, c => afterForm calls c
  | ⟨calls, .apart⟩, c =>
    match begin? c with
    | some place => .next ⟨calls, place⟩
    | none => afterForm calls c
  | ⟨calls, .naming letters⟩, c =>
    if c.isAlpha then .next ⟨calls, .naming (c :: letters)⟩
    else if isGap c then .next ⟨calls, .named letters⟩
    else if c = '(' then .next ⟨⟨letters.reverse, []⟩ :: calls, .opened⟩
    else refuse calls
  | ⟨calls, .named letters⟩, c =>
    if isGap c then .next ⟨calls, .named letters⟩
    else if c = '(' then .next ⟨⟨letters.reverse, []⟩ :: calls, .opened⟩
    else refuse calls
  | ⟨calls, .inNumber n⟩, c =>
    if largestNumber < n then refuse calls
    else if c.isDigit then .next ⟨calls, .inNumber (10 * n + (c.toNat - '0'.toNat))⟩
    else finishBefore calls (.number n) c
  | ⟨calls, .inText content⟩, c =>
    if c = textMark then finish calls (.text content.reverse) true
    else .next ⟨calls, .inText (c :: content)⟩
  | ⟨calls, .inSymbol name⟩, c =>
    if isSymbolic c then .next ⟨calls, .inSymbol (c :: name)⟩
    else if name.isEmpty then .failure
    else finishBefore calls (.symbol name.reverse) c

/-- What comes of a text that ends in a state: inside a quoted text it may be continued; a number or
a symbol that stands by itself is complete. -/
def State.atEnd (s : State) : Outcome :=
  match s.place, s.calls with
  | .inText _, _ => .incomplete
  | .inNumber n, [] => if largestNumber < n then .mismatch else .form (.number n) []
  | .inSymbol (c :: name), [] => .form (.symbol (c :: name).reverse) []
  | .inSymbol [], _ => .failure
  | _, [] => .mismatch
  | _, _ :: _ => .failure

/-! ## 4. Runs -/

/-- What comes of a text that is read from a state on. -/
def State.read (s : State) : List Char → Outcome
  | [] => s.atEnd
  | c :: rest =>
    match s.step c with
    | .next s => s.read rest
    | .done f true => .form f rest
    | .done f false => .form f (c :: rest)
    | .mismatch => .mismatch
    | .failure => .failure

/-- The state after a text that neither completes a form nor goes wrong. -/
def State.after? (s : State) : List Char → Option State
  | [] => some s
  | c :: rest =>
    match s.step c with
    | .next s => s.after? rest
    | _ => none

/-- **Reading a text in pieces is reading the whole text.** -/
theorem State.read_append {s t : State} {front : List Char} (h : s.after? front = some t)
    (back : List Char) : s.read (front ++ back) = t.read back := by
  induction front generalizing s with
  | nil => simp only [after?, Option.some.injEq] at h; rw [h]; rfl
  | cons c front ih =>
    unfold after? at h
    cases hs : s.step c with
    | next u => rw [hs] at h; simpa [read, hs] using ih h
    | done f taken => rw [hs] at h; simp at h
    | mismatch => rw [hs] at h; simp at h
    | failure => rw [hs] at h; simp at h

/-- The state before the first character. -/
def State.initial : State := ⟨[], .outset⟩

/-- The form at the beginning of a text, and the text behind it. -/
def read (text : List Char) : Outcome := State.initial.read text

end TaggedText.Shell.Form
