/-
# Where a run stops

A command that fails leaves the document and the predicates as they are, whichever command it is and
whyever it fails (`Session.apply_of_error`); only predicates may remember more.  A run stops there:
it has done what the commands in front have done, and what stands behind is not looked at, so that
the run would be the same with anything else behind (`Session.runAll_behind_failure`).  **So a run
does what the commands in front of the first failure do, and nothing is left over of the others**:
`Session.run_stops_at_first_failure`.  Which commands fail depends on the engine and the language;
where a run stops is said for all of them.
-/
import TaggedText.Proofs.Shell.Typing
import TaggedText.Proofs.Tagging

namespace TaggedText.Shell

variable [Language]

namespace Session

/-! ## 1. A command that fails -/

theorem tagging_of_error {s : Session} {tag : String} {spans : Except Fault (List Span)}
    {t : Trouble} (h : (s.tagging tag spans).result = .error t) :
    (s.tagging tag spans).session = s := by
  cases spans with
  | error e => rfl
  | ok spans => cases h

variable [Pattern.Engine]

/-- **A command that fails changes nothing but what predicates remember.** -/
theorem apply_of_error {s : Session} {c : Command} {t : Trouble}
    (h : (s.apply c).result = .error t) :
    (s.apply c).session = { s with memory := (s.apply c).session.memory } := by
  cases c with
  | regex tag pattern group overlapped =>
    rcases s.document.tagMatches_cases tag pattern group overlapped with
      ⟨fault, hfails⟩ | ⟨-, spans, -, hmade⟩
    · simp only [apply, hfails]
    · simp [apply, hmade, Except.map, Except.mapError] at h
  | between tag first second distance => cases h
  | column tag needle => rw [apply, tagging_of_error h]
  | project tag source reference => rw [apply, tagging_of_error h]
  | spans reference => cases h
  | tags => cases h
  | delete tag => cases h
  | untagged references =>
    cases huntagged : s.document.untagged references none with
    | error e => simp only [apply, huntagged, fails]
    | ok spans => simp [apply, huntagged, unchanged] at h
  | replace tag new =>
    cases hreplace : s.document.replace tag new with
    | error e => simp only [apply, hreplace, fails]
    | ok text => simp [apply, hreplace, unchanged] at h
  | apply tags => cases h
  | predicate name source =>
    cases hpredicate : Language.isPredicate source with
    | false => simp [apply, hpredicate, fails]
    | true => simp [apply, hpredicate] at h
  | query text references => rfl

theorem keeps_of_error {s : Session} {c : Command} {t : Trouble}
    (h : (s.apply c).result = .error t) :
    (s.apply c).session.document = s.document ∧ (s.apply c).session.predicates = s.predicates := by
  rw [apply_of_error h]
  exact ⟨rfl, rfl⟩

/-! ## 2. Commands one after the other -/

/-- The session after these commands, each applied to what the one in front leaves. -/
def after (s : Session) (cs : List Command) : Session :=
  cs.foldl (fun s c => (s.apply c).session) s

/-- The commands in front of the first one that fails, all of them if none does. -/
def beforeFailure (s : Session) : List Command → List Command
  | [] => []
  | c :: rest =>
    match (s.apply c).result with
    | .error _ => []
    | .ok _ => c :: (s.apply c).session.beforeFailure rest

variable (s : Session)

theorem beforeFailure_cons_of_error {c : Command} {t : Trouble}
    (h : (s.apply c).result = .error t) (rest : List Command) :
    s.beforeFailure (c :: rest) = [] := by
  rw [beforeFailure, h]

theorem beforeFailure_cons_of_ok {c : Command} {lines : List String}
    (h : (s.apply c).result = .ok lines) (rest : List Command) :
    s.beforeFailure (c :: rest) = c :: (s.apply c).session.beforeFailure rest := by
  rw [beforeFailure, h]

/-- No command in front of the first failure fails. -/
theorem exists_ok_of_beforeFailure {c : Command} {later : List Command} :
    ∀ {s : Session} {cs earlier : List Command}, s.beforeFailure cs = earlier ++ c :: later →
    ∃ lines, ((s.after earlier).apply c).result = .ok lines
  | _, [], _, h => by simp [beforeFailure] at h
  | s, d :: cs, earlier, h => by
    cases hresult : (s.apply d).result with
    | error t => simp [s.beforeFailure_cons_of_error hresult] at h
    | ok lines =>
      rw [s.beforeFailure_cons_of_ok hresult] at h
      cases earlier with
      | nil =>
        obtain ⟨rfl, -⟩ := List.cons.inj h
        exact ⟨lines, hresult⟩
      | cons e earlier =>
        obtain ⟨rfl, hrest⟩ := List.cons.inj h
        exact exists_ok_of_beforeFailure (s := (s.apply d).session) hrest

/-! ## 3. Runs -/

theorem runAll_cons_of_error {c : Command} {t : Trouble} (h : (s.apply c).result = .error t)
    (rest : List Command) : s.runAll (c :: rest) = s.apply c := by
  rw [runAll]
  simp only [h]

theorem runAll_cons_of_ok {c : Command} {lines : List String} (h : (s.apply c).result = .ok lines)
    (rest : List Command) :
    (s.runAll (c :: rest)).session = ((s.apply c).session.runAll rest).session ∧
      (s.runAll (c :: rest)).result =
        ((s.apply c).session.runAll rest).result.map (lines ++ ·) := by
  rw [runAll]
  simp only [h, and_self]

/-- **A run gives the session behind the commands in front of the first failure**, or behind all of
them; if there is a failure, the run fails for the same cause. -/
theorem runAll_cases (cs : List Command) :
    (s.beforeFailure cs = cs ∧ (s.runAll cs).session = s.after cs ∧
      ∃ lines, (s.runAll cs).result = .ok lines) ∨
    ∃ c behind t, cs = s.beforeFailure cs ++ c :: behind ∧
      ((s.after (s.beforeFailure cs)).apply c).result = .error t ∧
      (s.runAll cs).session = ((s.after (s.beforeFailure cs)).apply c).session ∧
      (s.runAll cs).result = .error t := by
  induction cs generalizing s with
  | nil => exact .inl ⟨rfl, rfl, [], rfl⟩
  | cons c rest ih =>
    cases hresult : (s.apply c).result with
    | error t =>
      rw [s.beforeFailure_cons_of_error hresult, s.runAll_cons_of_error hresult]
      exact .inr ⟨c, rest, t, rfl, hresult, rfl, hresult⟩
    | ok lines =>
      obtain ⟨hsession, houtput⟩ := s.runAll_cons_of_ok hresult rest
      rw [s.beforeFailure_cons_of_ok hresult, hsession, houtput]
      rcases ih (s.apply c).session with
        ⟨hall, hafter, others, hothers⟩ | ⟨d, behind, t, hcs, hfails, hafter, herror⟩
      · exact .inl ⟨by rw [hall], hafter, lines ++ others, by rw [hothers]; rfl⟩
      · exact .inr ⟨d, behind, t, by rw [List.cons_append, ← hcs], hfails, hafter,
          by rw [herror]; rfl⟩

/-- **What stands behind a command that fails makes no difference to a run.** -/
theorem runAll_behind_failure {c : Command} {t : Trouble} : ∀ {s : Session} {front : List Command},
    ((s.after front).apply c).result = .error t → ∀ behind others : List Command,
    s.runAll (front ++ c :: behind) = s.runAll (front ++ c :: others)
  | s, [], h, behind, others =>
    (s.runAll_cons_of_error h behind).trans (s.runAll_cons_of_error h others).symm
  | s, d :: front, h, behind, others => by
    have hrest : (((s.apply d).session.after front).apply c).result = .error t := h
    rw [List.cons_append, List.cons_append, runAll, runAll,
      runAll_behind_failure hrest behind others]

/-! ## 4. The commands that wait -/

/-- Running commands that wait is running them, with nothing waiting afterwards. -/
theorem execute_eq (cs : List Command) :
    { s with waiting := cs }.execute =
      { (s.runAll cs).typed [] s.unfinished with notices := collapse (s.runAll cs).notices } :=
  congrArg (fun e : Effect => { e with notices := collapse e.notices })
    (s.runAll_frame [] s.unfinished cs)

/-- What a run does is what its commands do. -/
theorem execute_runs : s.execute.session.document = (s.runAll s.waiting).session.document ∧
    s.execute.session.predicates = (s.runAll s.waiting).session.predicates ∧
    s.execute.result = (s.runAll s.waiting).result := by
  have hexecute : s.execute =
      { (s.runAll s.waiting).typed [] s.unfinished with
        notices := collapse (s.runAll s.waiting).notices } := s.execute_eq s.waiting
  rw [hexecute]
  exact ⟨rfl, rfl, rfl⟩

/-- **The run is the same, whatever stands behind a command that fails.** -/
theorem execute_behind_failure {c : Command} {front behind : List Command} {t : Trouble}
    (hwaiting : s.waiting = front ++ c :: behind)
    (hfails : ((s.after front).apply c).result = .error t) (others : List Command) :
    { s with waiting := front ++ c :: others }.execute = s.execute := by
  rw [s.execute_eq, runAll_behind_failure hfails others behind, ← s.execute_eq, ← hwaiting]

/-- **A run does what the commands in front of the first failure do, and no more.**  Nothing waits
afterwards.  The document and the predicates are those behind the commands in front, none of which
fails.  If there is one that fails, the run fails for its cause; that command has left the document
and the predicates as they were; and the run is the same in every respect, whatever commands stand
behind. -/
theorem run_stops_at_first_failure (s : Session) :
    let front := s.beforeFailure s.waiting
    let reached := s.after front
    let run := s.execute
    (run.session.waiting = [] ∧ run.session.document = reached.document ∧
      run.session.predicates = reached.predicates) ∧
    (∀ earlier c later, front = earlier ++ c :: later →
      ∃ lines, ((s.after earlier).apply c).result = .ok lines) ∧
    ((front = s.waiting ∧ ∃ lines, run.result = .ok lines) ∨
      ∃ c behind t, s.waiting = front ++ c :: behind ∧ (reached.apply c).result = .error t ∧
        run.result = .error t ∧ (reached.apply c).session.document = reached.document ∧
        (reached.apply c).session.predicates = reached.predicates ∧
        ∀ others, { s with waiting := front ++ c :: others }.execute = run) := by
  intro front reached run
  obtain ⟨hdocument, hpredicates, hresult⟩ := s.execute_runs
  have hsucceed : ∀ earlier c later, front = earlier ++ c :: later →
      ∃ lines, ((s.after earlier).apply c).result = .ok lines :=
    fun _ _ _ => exists_ok_of_beforeFailure
  rcases s.runAll_cases s.waiting with
    ⟨hall, hafter, lines, hlines⟩ | ⟨c, behind, t, hwaiting, hfails, hafter, herror⟩
  · rw [hafter] at hdocument hpredicates
    have hreached : reached = s.after s.waiting := congrArg s.after hall
    rw [hreached]
    exact ⟨⟨s.execute_waiting, hdocument, hpredicates⟩, hsucceed,
      .inl ⟨hall, lines, hresult.trans hlines⟩⟩
  · rw [hafter] at hdocument hpredicates
    obtain ⟨hkeeps, hkeeps'⟩ := keeps_of_error hfails
    exact ⟨⟨s.execute_waiting, hdocument.trans hkeeps, hpredicates.trans hkeeps'⟩, hsucceed,
      .inr ⟨c, behind, t, hwaiting, hfails, hresult.trans herror, hkeeps, hkeeps',
        s.execute_behind_failure hwaiting hfails⟩⟩

end Session

end TaggedText.Shell
