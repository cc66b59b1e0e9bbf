/-
# Sessions

A session keeps a document with its tags, the predicates that the user has defined, commands that
wait to be run, and a command of which only a part has been typed.

Commands are typed in pieces.  A piece that ends inside a quoted text is kept, and the next piece
continues it on a new line.  A complete command waits with the others until they are run, in the
order in which they were typed.  **A run stops at the first command that fails**: those before it
have taken effect, it has none itself, and those behind it are dropped.

Which patterns are understood is left to an engine, and which predicates are, and how they are
evaluated, to a language.
-/
import TaggedText.Column
import TaggedText.Language
import TaggedText.Query
import TaggedText.Shell.Command
import TaggedText.Shell.Form.Reader
import TaggedText.Shell.Trouble
import TaggedText.Text.Line

namespace TaggedText.Shell

/-! ## 1. Lines -/

/-- What a line is. -/
inductive Line where
  | blank
  | unfinished
  | command (c : Command)

/-- A form that was read from a line, with what is behind it, as a command. -/
def Line.ofForm (line : List Char) (f : Form) (rest : List Char) : Except Trouble Line :=
  if !Text.allBlank rest then .error (.trailing rest)
  else
    match f with
    | .call name arguments =>
      match Command.ofCall? (String.ofList name) arguments with
      | some c => .ok (.command c)
      | none => .error (.noCommand line)
    | _ => .error (.noCall line)

/-- What a line is, or what is wrong with it. -/
def Line.read (line : List Char) : Except Trouble Line :=
  if Text.allBlank line then .ok .blank
  else
    match Form.read (Text.dropBlanks line) with
    | .form f rest => Line.ofForm line f rest
    | .incomplete => .ok .unfinished
    | .mismatch => .error .unreadable
    | .failure => .error .unreadable

/-! ## 2. Typing -/

variable [Pattern.Engine] [Language]

/-- A document and what has been typed. -/
structure Session where
  document : Document
  /-- The predicates of the user with their texts, in the order of their definition. -/
  predicates : List (String × List Char) := []
  /-- What predicates remember. -/
  memory : Language.Memory := Language.fresh
  /-- The commands that wait, in the order in which they were typed. -/
  waiting : List Command := []
  /-- A line that a later one continues. -/
  unfinished : List Char := []

/-- What is to be expected of the next piece. -/
inductive Cursor where
  /-- Nothing waits. -/
  | idle
  /-- Complete commands wait. -/
  | ready
  /-- A command goes on. -/
  | within
deriving DecidableEq

namespace Session

/-- One more piece is typed. -/
def add (s : Session) (piece : List Char) : Session × Except Trouble Cursor :=
  let line := s.unfinished ++ piece
  let s := { s with unfinished := [] }
  match Line.read line with
  | .error t => (s, .error t)
  | .ok .unfinished => ({ s with unfinished := line ++ ['\n'] }, .ok .within)
  | .ok (.command c) => ({ s with waiting := s.waiting ++ [c] }, .ok .ready)
  | .ok .blank => (s, .ok (if s.waiting.isEmpty then .idle else .ready))

/-! ## 3. Listings -/

/-- A span with its text. -/
def spanLine (d : Document) (a : Span) : String :=
  a.text ++ " " ++ String.ofList (Text.quoted (d.textAt a))

/-- A row with its texts. -/
def rowLine (d : Document) (row : Row) : String := " | ".intercalate (row.map (spanLine d))

/-- The lines of a text. -/
def textLines (text : List Char) : List String := (Text.lines text).map String.ofList

/-! ## 4. Running one command -/

/-- What a command does: the session afterwards, its output or what went wrong, and what there is to
be said besides. -/
structure Effect where
  session : Session
  result : Except Trouble (List String)
  notices : List Notice := []

/-- The session stays as it is. -/
def unchanged (s : Session) (lines : List String) : Effect := ⟨s, .ok lines, []⟩

/-- A command fails. -/
def fails (s : Session) (t : Trouble) : Effect := ⟨s, .error t, []⟩

/-- The line about a number of spans that were tagged. -/
def taggedLine (tag : String) (n : Nat) : String :=
  "tagged " ++ n.repr ++ " locations with '" ++ tag

/-- Spans are tagged, if there are any to be tagged. -/
def tagging (s : Session) (tag : String) : Except Fault (List Span) → Effect
  | .error e => s.fails (.fault e)
  | .ok spans =>
    let t := s.document.tagSpans tag spans
    ⟨{ s with document := t.document }, .ok [taggedLine tag t.added], t.notices⟩

/-- What is remembered while a query is answered: the memory of the predicates, and the notices, the
last one first. -/
abbrev Answering := StateM (Language.Memory × List Notice)

/-- The answers of the user's predicates.  One that goes wrong counts as false. -/
def judge (predicates : List (String × List Char)) : Query.Judge Answering := fun name row => do
  match predicates.lookup name with
  | none => return false
  | some source =>
    let (memory, notices) ← get
    match Language.holds source row memory with
    | (some b, memory) =>
      set (memory, notices)
      return b
    | (none, memory) =>
      set (memory, .failedPredicate name :: notices)
      return false

/-- A query is answered. -/
def answering (s : Session) (text : String) (references : List Reference) : Effect :=
  let (q, notices) := Query.make s.document references text
  let q := { q with users := s.predicates.map Prod.fst }
  let ((_, answer, more), (memory, failures)) :=
    (q.execute (judge s.predicates)).run (s.memory, [])
  let lines := answer.map fun rows =>
    (Row.sort rows).map (rowLine s.document) ++ [rows.length.repr ++ " rows"]
  ⟨{ s with memory := memory }, lines.mapError Trouble.fault,
    notices ++ failures.reverse ++ more⟩

/-- What a command does. -/
def apply (s : Session) : Command → Effect
  | .regex tag pattern group overlapped =>
    let (d, result) := s.document.tagMatches tag pattern group overlapped
    let lines := result.map fun n => [taggedLine tag n]
    ⟨{ s with document := d }, lines.mapError Trouble.fault, []⟩
  | .between tag first second distance =>
    s.tagging tag (.ok (s.document.between first second distance))
  | .column tag needle => s.tagging tag (s.document.columnContaining needle)
  | .project tag source reference => s.tagging tag (s.document.project source reference)
  | .spans reference =>
    let spans := s.document.spansOf false reference
    s.unchanged (spans.map (spanLine s.document) ++ [spans.length.repr ++ " locations"])
  | .tags =>
    s.unchanged (s.document.tags.map fun (tag, spans) =>
      "'" ++ tag ++ " (" ++ spans.length.repr ++ " locations)")
  | .delete tag =>
    let (d, removed, notices) := s.document.deleteTag tag
    let lines := removed.toList.map fun spans =>
      "deleted '" ++ tag ++ " (" ++ spans.length.repr ++ " locations)"
    ⟨{ s with document := d }, .ok lines, notices⟩
  | .untagged references =>
    match s.document.untagged references none with
    | .ok spans =>
      s.unchanged ((spans.filter fun a => !Text.allBlank (s.document.textAt a)).map
        (spanLine s.document))
    | .error e => s.fails (.fault e)
  | .replace tag new =>
    match s.document.replace tag new with
    | .ok text => s.unchanged (textLines text)
    | .error e => s.fails (.fault e)
  | .apply tags => s.unchanged (textLines (s.document.applyTags tags))
  | .predicate name source =>
    if Language.isPredicate source then
      ⟨{ s with predicates := s.predicates.filter (fun p => p.1 != name) ++ [(name, source)] },
        .ok ["registered predicate " ++ name], []⟩
    else s.fails .formula
  | .query text references => s.answering text references

/-! ## 5. Running what waits -/

/-- Commands are run in order until one fails. -/
def runAll (s : Session) : List Command → Effect
  | [] => s.unchanged []
  | c :: rest =>
    let first := s.apply c
    match first.result with
    | .error _ => first
    | .ok lines =>
      let others := first.session.runAll rest
      { others with
        result := others.result.map (lines ++ ·)
        notices := first.notices ++ others.notices }

/-- **No command adds to those that wait**, or takes any away. -/
theorem apply_waiting (s : Session) (c : Command) : (s.apply c).session.waiting = s.waiting := by
  cases c with
  | regex tag pattern group overlapped => rfl
  | between tag first second distance => rfl
  | column tag needle =>
    unfold apply tagging
    simp only
    split <;> rfl
  | project tag source reference =>
    unfold apply tagging
    simp only
    split <;> rfl
  | spans reference => rfl
  | tags => rfl
  | delete tag => rfl
  | untagged references =>
    unfold apply
    simp only
    split <;> rfl
  | replace tag new =>
    unfold apply
    simp only
    split <;> rfl
  | apply tags => rfl
  | predicate name source =>
    unfold apply
    simp only
    split <;> rfl
  | query text references => rfl

/-- What waits still waits after commands that were not among it. -/
theorem runAll_waiting (s : Session) (cs : List Command) :
    (s.runAll cs).session.waiting = s.waiting := by
  induction cs generalizing s with
  | nil => rfl
  | cons c rest ih =>
    unfold runAll
    simp only
    split
    · exact s.apply_waiting c
    · exact (ih _).trans (s.apply_waiting c)

/-- A predicate that fails for one row after the other is reported once. -/
def collapse : List Notice → List Notice
  | .failedPredicate name :: rest =>
    match collapse rest with
    | .failedPredicate next :: others =>
      if name = next then .failedPredicate next :: others
      else .failedPredicate name :: .failedPredicate next :: others
    | others => .failedPredicate name :: others
  | n :: rest => n :: collapse rest
  | [] => []

/-- The commands that wait are run, and none waits afterwards. -/
def execute (s : Session) : Effect :=
  let e := { s with waiting := [] }.runAll s.waiting
  { e with notices := collapse e.notices }

/-- **Nothing waits after a run**, whether it fails or not. -/
theorem execute_waiting (s : Session) : s.execute.session.waiting = [] :=
  runAll_waiting { s with waiting := [] } s.waiting

end Session

end TaggedText.Shell
