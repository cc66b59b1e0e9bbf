/-
# What the cursor tells

Between two lines the console remembers what is to be expected of the next one, and the session
holds what has been typed.  The two agree (`Console.Agrees`) if the cursor is inside a command
exactly when a line is unfinished, and otherwise tells whether commands wait.

They agree after every line of a script and after every line that is typed, for any script and any
input, whatever goes wrong on the way.  There is **one point at which they may differ: where the
script hands its session over**.  What is typed then is expected to begin a command, and it does so
exactly if the script has left no line unfinished: `cursor_agrees_but_at_handover`.
-/
import TaggedText.Proofs.Shell.Typing
import TaggedText.Shell.Console

namespace TaggedText.Shell

/-! ## 1. Agreement -/

/-- What is to be expected of a session's next piece. -/
def Session.expected [Language] (s : Session) : Cursor :=
  if s.unfinished ≠ [] then .within else if s.waiting ≠ [] then .ready else .idle

namespace Console

section Agreement

variable [Language]

/-- **The cursor tells what the session holds**: a line that is unfinished, or else commands that
wait, or neither. -/
structure Agrees (c : Console) : Prop where
  within : c.cursor = .within ↔ c.session.unfinished ≠ []
  ready : c.cursor = .ready ↔ c.session.unfinished = [] ∧ c.session.waiting ≠ []
  idle : c.cursor = .idle ↔ c.session.unfinished = [] ∧ c.session.waiting = []

theorem agrees_iff {c : Console} : c.Agrees ↔ c.cursor = c.session.expected := by
  constructor
  · intro h
    unfold Session.expected
    split
    · next hunfinished => exact h.within.mpr hunfinished
    · next hunfinished =>
      split
      · next hwaiting => exact h.ready.mpr ⟨by simpa using hunfinished, hwaiting⟩
      · next hwaiting => exact h.idle.mpr ⟨by simpa using hunfinished, by simpa using hwaiting⟩
  · intro h
    by_cases hunfinished : c.session.unfinished = [] <;>
      by_cases hwaiting : c.session.waiting = [] <;>
      constructor <;> simp [h, Session.expected, hunfinished, hwaiting]

/-! ## 2. What steps keep -/

/-- **After a piece was typed the cursor tells what the session holds**, whatever it was before. -/
theorem agrees_of_add {s s' : Session} {piece : List Char} {cursor : Cursor}
    (h : s.add piece = (s', .ok cursor)) : Agrees ⟨s', cursor⟩ := by
  rw [agrees_iff]
  rcases s.add_cases piece with
    ⟨t, -, hadd⟩ | ⟨-, hadd⟩ | ⟨c, -, hadd⟩ | ⟨-, hadd⟩ <;> cases hadd.symm.trans h
  · simp [Session.expected]
  · simp [Session.expected]
  · cases s.waiting <;> simp [Session.expected]

/-- A session is left with nothing unfinished if a piece goes wrong or completes a command. -/
theorem unfinished_of_add {s s' : Session} {piece : List Char} {result : Except Trouble Cursor}
    (h : s.add piece = (s', result)) (hresult : result ≠ .ok .within) : s'.unfinished = [] := by
  rcases s.add_cases piece with
    ⟨t, -, hadd⟩ | ⟨-, hadd⟩ | ⟨c, -, hadd⟩ | ⟨-, hadd⟩ <;> cases hadd.symm.trans h
  · rfl
  · exact absurd rfl hresult
  · rfl
  · rfl

/-- Only a piece that completes a command makes a session wait for more than before. -/
theorem waiting_of_add {s s' : Session} {piece : List Char} {result : Except Trouble Cursor}
    (h : s.add piece = (s', result)) (hresult : result ≠ .ok .ready) :
    s'.waiting = s.waiting := by
  rcases s.add_cases piece with
    ⟨t, -, hadd⟩ | ⟨-, hadd⟩ | ⟨c, -, hadd⟩ | ⟨-, hadd⟩ <;> cases hadd.symm.trans h
  · rfl
  · rfl
  · exact absurd rfl hresult
  · rfl

theorem agrees_ofText (text : String) (keepCase : Bool) :
    Agrees ⟨Session.ofText text keepCase, .idle⟩ := agrees_iff.mpr rfl

theorem Agrees.unfinished_eq_nil {c : Console} (h : c.Agrees) (hcursor : c.cursor ≠ .within) :
    c.session.unfinished = [] :=
  Classical.byContradiction fun hne => hcursor (h.within.mpr hne)

theorem add_of_session {c : Console} {piece : List Char} {s : Session} {cursor : Cursor}
    (h : c.session.add piece = (s, .ok cursor)) : c.add piece = ⟨.ok ⟨s, cursor⟩, []⟩ := by
  unfold add
  rw [h]

theorem agrees_add {c c' : Console} {piece : List Char} (h : (c.add piece).console = .ok c') :
    c'.Agrees := by
  unfold add at h
  cases hadd : c.session.add piece with
  | mk s result =>
    cases result with
    | error t => simp [hadd] at h
    | ok cursor =>
      simp only [hadd, Except.ok.injEq] at h
      subst h
      exact agrees_of_add hadd

variable [Pattern.Engine]

/-- **After a run nothing waits.**  A line that was unfinished still is. -/
theorem of_run {c c' : Console} (h : c.run.console = .ok c') :
    c'.cursor = .idle ∧ c'.session.waiting = [] ∧
      c'.session.unfinished = c.session.unfinished := by
  unfold run at h
  cases hresult : c.session.execute.result with
  | error t => simp [hresult] at h
  | ok lines =>
    simp only [hresult, Except.ok.injEq] at h
    subst h
    exact ⟨rfl, c.session.execute_waiting, c.session.execute_unfinished⟩

/-- **What a line of a script does keeps the cursor right.** -/
theorem Agrees.obey {c c' : Console} (hc : c.Agrees) {line : List Char}
    (h : (c.obey line).console = .ok c') : c'.Agrees := by
  unfold Console.obey at h
  split at h
  · exact agrees_add h
  · exact agrees_add h
  · next hcursor _ =>
    split at h
    · obtain ⟨hidle, hwaiting, hunfinished⟩ := of_run h
      have hnone := hc.unfinished_eq_nil (by simp [hcursor])
      rw [agrees_iff, hidle]
      simp [Session.expected, hwaiting, hunfinished, hnone]
    · cases h
      exact hc
  · cases h
    exact hc

theorem Agrees.playAll {c c' : Console} (hc : c.Agrees) {lines : List (List Char)}
    (h : (c.playAll lines).console = .ok c') : c'.Agrees := by
  induction lines generalizing c with
  | nil =>
    cases h
    exact hc
  | cons line rest ih =>
    unfold Console.playAll at h
    cases hplay : (c.play line).console with
    | error t => simp [hplay] at h
    | ok next =>
      simp only [hplay] at h
      exact ih (hc.obey hplay) h

/-- **At the end of a script nothing waits**, and what was unfinished still is. -/
theorem Agrees.finish {c c' : Console} (hc : c.Agrees) (h : c.finish.console = .ok c') :
    c'.session.waiting = [] ∧ c'.session.unfinished = c.session.unfinished := by
  unfold Console.finish at h
  split at h
  · next hidle =>
    cases h
    exact ⟨(hc.idle.mp hidle).2, rfl⟩
  · exact (of_run h).2

/-- A script that is played to its end was played to the end of its lines. -/
theorem playAll_of_playScript {c c' : Console} {script : List Char}
    (h : (c.playScript script).console = .ok c') :
    ∃ last, (c.playAll (Text.lines script)).console = .ok last ∧ last.finish.console = .ok c' := by
  unfold playScript at h
  cases hplay : (c.playAll (Text.lines script)).console with
  | error t => simp [hplay] at h
  | ok last =>
    simp only [hplay] at h
    exact ⟨last, rfl, h⟩

/-- **After a line was typed the cursor tells what the session holds**, whatever it was before, if
no command waited. -/
theorem agrees_type {c : Console} (h : c.session.waiting = []) (line : List Char) :
    (c.type line).1.Agrees ∧ (c.type line).1.session.waiting = [] := by
  unfold type
  cases hadd : c.session.add line with
  | mk s result =>
    cases result with
    | error t =>
      have hunfinished := unfinished_of_add hadd (by simp)
      have hwaiting := (waiting_of_add hadd (by simp)).trans h
      exact ⟨agrees_iff.mpr (by simp [Session.expected, hunfinished, hwaiting]), hwaiting⟩
    | ok cursor =>
      have hwaits : cursor ≠ .ready → s.waiting = [] := fun hne =>
        (waiting_of_add hadd (by simpa using hne)).trans h
      cases cursor with
      | idle => exact ⟨agrees_of_add hadd, hwaits (by simp)⟩
      | within => exact ⟨agrees_of_add hadd, hwaits (by simp)⟩
      | ready =>
        have hunfinished := unfinished_of_add hadd (by simp)
        have hleft := s.execute_unfinished.trans hunfinished
        exact ⟨agrees_iff.mpr (by simp [Session.expected, hleft, s.execute_waiting]),
          s.execute_waiting⟩

theorem agrees_typeAll {c : Console} (h : c.session.waiting = []) {lines : List (List Char)}
    (hne : lines ≠ []) : (c.typeAll lines).1.Agrees := by
  induction lines generalizing c with
  | nil => exact absurd rfl hne
  | cons line rest ih =>
    obtain ⟨hagrees, hwaiting⟩ := agrees_type h line
    cases rest with
    | nil => exact hagrees
    | cons next rest => exact ih hwaiting (by simp)

/-! ## 3. The whole program -/

/-- **The cursor tells what the session holds at every point between two lines** of a script and of
what is typed behind it, but for the point between the two.  There it does so exactly if the last
line of the script has left no line unfinished. -/
theorem cursor_agrees_but_at_handover (text : String) (keepCase : Bool)
    (script input : List Char) :
    let start : Console := ⟨Session.ofText text keepCase, .idle⟩
    (∀ front back c, Text.lines script = front ++ back →
      (start.playAll front).console = .ok c → c.Agrees) ∧
    ∀ c, (start.playScript script).console = .ok c →
      (∃ last, (start.playAll (Text.lines script)).console = .ok last ∧
        (Agrees ⟨c.session, .idle⟩ ↔ last.cursor ≠ .within)) ∧
      ∀ front back, Text.linesWithEnds input = front ++ back → front ≠ [] →
        (typeAll ⟨c.session, .idle⟩ front).1.Agrees := by
  intro start
  have hstart : start.Agrees := agrees_ofText text keepCase
  refine ⟨fun front back c _ hplay => hstart.playAll hplay, fun c hscript => ?_⟩
  obtain ⟨last, hplay, hfinish⟩ := playAll_of_playScript hscript
  have hlast : last.Agrees := hstart.playAll hplay
  obtain ⟨hwaiting, hunfinished⟩ := hlast.finish hfinish
  refine ⟨⟨last, hplay, ?_⟩, fun front back _ hne =>
    agrees_typeAll (c := ⟨c.session, .idle⟩) hwaiting hne⟩
  rw [Ne, hlast.within, ← hunfinished, agrees_iff]
  simp only [Session.expected, hwaiting, ne_eq, not_true_eq_false, if_false, Classical.not_not]
  split <;> simp_all

end Agreement

/-- **A script may leave a command unfinished when it hands its session over.**  The cursor then says
that nothing is unfinished, and the first line that is typed is taken into the command. -/
theorem handover_within_a_command :
    let start : Console := ⟨Session.ofText "a b" false, .idle⟩
    ∃ c, (start.playScript "> show(\"a".toList).console = .ok c ∧ ¬ Agrees ⟨c.session, .idle⟩ ∧
      c.session.unfinished = "show(\"a\n".toList ∧
      type ⟨c.session, .idle⟩ "tags()\n".toList =
        (⟨{ c.session with unfinished := "show(\"a\ntags()\n\n".toList }, .within⟩, []) := by
  intro start
  refine ⟨⟨{ start.session with unfinished := "show(\"a\n".toList }, .idle⟩, by rfl, ?_, rfl,
    by rfl⟩
  intro h
  exact absurd h.idle (by decide)

end Console

end TaggedText.Shell
