/-
# What pieces and commands do to a session

A session has two halves.  What is typed only reaches its second half, the commands that wait and
the line that is unfinished (`Session.add_cases`); commands only read and change its first half,
the document, the predicates and what these remember (`Session.apply_frame`).  So **it does not
matter to a command what waits behind it or what is half typed while it is run**, and commands that
are run in one batch do what they do one by one (`Session.runEach_eq_runAll`).  Nothing of this
depends on the engine or the language.
-/
import TaggedText.Shell.Session

namespace TaggedText.Shell

variable [Language]

namespace Session

/-! ## 1. Typing a piece -/

/-- **What typing a piece does.**  It is read behind the unfinished line.  Only a command is put to
those that wait, and only an unfinished line is kept. -/
theorem add_cases (s : Session) (piece : List Char) :
    (∃ t, Line.read (s.unfinished ++ piece) = .error t ∧
      s.add piece = ({ s with unfinished := [] }, .error t)) ∨
    (Line.read (s.unfinished ++ piece) = .ok .unfinished ∧
      s.add piece = ({ s with unfinished := s.unfinished ++ piece ++ ['\n'] }, .ok .within)) ∨
    (∃ c, Line.read (s.unfinished ++ piece) = .ok (.command c) ∧
      s.add piece = ({ s with unfinished := [], waiting := s.waiting ++ [c] }, .ok .ready)) ∨
    (Line.read (s.unfinished ++ piece) = .ok .blank ∧
      s.add piece =
        ({ s with unfinished := [] }, .ok (if s.waiting.isEmpty then .idle else .ready))) := by
  cases hread : Line.read (s.unfinished ++ piece) with
  | error t => exact .inl ⟨t, rfl, by simp [add, hread]⟩
  | ok line =>
    cases line with
    | unfinished => exact .inr (.inl ⟨rfl, by simp [add, hread]⟩)
    | command c => exact .inr (.inr (.inl ⟨c, rfl, by simp [add, hread]⟩))
    | blank => exact .inr (.inr (.inr ⟨rfl, by simp [add, hread]⟩))

/-! ## 2. Running commands -/

/-- The session with these commands waiting and this line unfinished. -/
def typed (s : Session) (waiting : List Command) (unfinished : List Char) : Session :=
  { s with waiting := waiting, unfinished := unfinished }

/-- The effect with these commands waiting and this line unfinished. -/
def Effect.typed (e : Effect) (waiting : List Command) (unfinished : List Char) : Effect :=
  { e with session := e.session.typed waiting unfinished }

variable (s : Session) (waiting : List Command) (unfinished : List Char)

theorem tagging_frame (tag : String) (spans : Except Fault (List Span)) :
    (s.typed waiting unfinished).tagging tag spans =
      (s.tagging tag spans).typed waiting unfinished := by
  cases spans <;> rfl

variable [Pattern.Engine]

/-- **A command neither reads nor changes what is typed.** -/
theorem apply_frame (c : Command) :
    (s.typed waiting unfinished).apply c = (s.apply c).typed waiting unfinished := by
  cases c with
  | regex tag pattern group overlapped => rfl
  | between tag first second distance => rfl
  | column tag needle => exact s.tagging_frame waiting unfinished tag _
  | project tag source reference => exact s.tagging_frame waiting unfinished tag _
  | spans reference => rfl
  | tags => rfl
  | delete tag => rfl
  | untagged references =>
    simp only [apply, typed]
    cases s.document.untagged references none <;> rfl
  | replace tag new =>
    simp only [apply, typed]
    cases s.document.replace tag new <;> rfl
  | apply tags => rfl
  | predicate name source =>
    simp only [apply]
    cases Language.isPredicate source <;> rfl
  | query text references => rfl

/-- Commands that are run together neither read nor change what is typed. -/
theorem runAll_frame (cs : List Command) :
    (s.typed waiting unfinished).runAll cs = (s.runAll cs).typed waiting unfinished := by
  induction cs generalizing s with
  | nil => rfl
  | cons c rest ih =>
    rw [runAll, runAll, apply_frame]
    cases hresult : (s.apply c).result with
    | error t => simp [Effect.typed, hresult]
    | ok lines => simp [Effect.typed, hresult, ih]

/-- A line that is unfinished stays so while commands are run. -/
theorem execute_unfinished : s.execute.session.unfinished = s.unfinished := by
  have h := s.runAll_frame [] s.unfinished s.waiting
  exact congrArg (fun e => e.session.unfinished) h

/-! ## 3. One by one -/

/-- Commands are run one after the other, each in a batch of its own, until one fails: the session
afterwards and the lines of all outputs. -/
def runEach (s : Session) : List Command → Except Trouble (Session × List String)
  | [] => .ok (s, [])
  | c :: rest =>
    let e := { s with waiting := [c] }.execute
    match e.result with
    | .error t => .error t
    | .ok lines => (e.session.runEach rest).map fun (s, others) => (s, lines ++ others)

theorem runEach_cons (h : s.waiting = []) (c : Command) (rest : List Command) :
    s.runEach (c :: rest) = (s.apply c).result.bind fun lines =>
      ((s.apply c).session.runEach rest).map fun (s, others) => (s, lines ++ others) := by
  have hs : { s with waiting := [] } = s := by rw [← h]
  have hone : { s with waiting := [c] }.execute.session = (s.apply c).session ∧
      { s with waiting := [c] }.execute.result = (s.apply c).result := by
    simp only [execute, hs, runAll]
    cases hresult : (s.apply c).result with
    | error t => simp [hresult]
    | ok lines => simp [unchanged, Except.map]
  rw [runEach, hone.1, hone.2]
  cases (s.apply c).result <;> rfl

/-- **A batch does what its commands do one by one.** -/
theorem runEach_eq_runAll (h : s.waiting = []) (cs : List Command) :
    s.runEach cs = (s.runAll cs).result.map fun lines => ((s.runAll cs).session, lines) := by
  induction cs generalizing s with
  | nil => rfl
  | cons c rest ih =>
    rw [runEach_cons s h, runAll]
    cases hresult : (s.apply c).result with
    | error t => simp only [hresult]; rfl
    | ok lines =>
      have hrest := ih (s.apply c).session ((s.apply_waiting c).trans h)
      simp only [Except.bind, hrest]
      cases ((s.apply c).session.runAll rest).result <;> rfl

end Session

end TaggedText.Shell
