/-
# What a script does

The commands of a script can be read off its lines (`commandsFrom`), without looking at what waits or
at what is expected next: a line that begins with `> ` begins a command, lines continue it for as
long as a text that is quoted in it is not closed, and all other lines are asides.

A script runs these commands, in this order, and each of them once.  What carries the proof is
what is still to be done (`Ahead`): **at every line, what waits is run before what the rest of the
script has to give**.  A line that is typed moves a command from the script to those that wait; an
aside leaves both as they are, or runs what waits (`obey_ahead`).  As commands that are run together
do what they do one by one, the script does what its commands do, each in a batch of its own:
`script_runs_each_command_once`, for any engine and language.
-/
import TaggedText.Proofs.Shell.Cursor

namespace TaggedText.Shell

/-! ## 1. The commands of a script -/

/-- The text that is complete or goes on with a line of a script, if the line is no aside. -/
def typed? : List Char → List Char → Option (List Char)
  | [], '>' :: ' ' :: piece => some piece
  | [], _ => none
  | unfinished, line => some (unfinished ++ line)

/-- Nothing is an aside while a text is unfinished. -/
theorem typed?_of_ne {unfinished : List Char} (h : unfinished ≠ []) (line : List Char) :
    typed? unfinished line = some (unfinished ++ line) := by
  cases unfinished with
  | nil => exact absurd rfl h
  | cons c rest => rfl

/-- The commands that lines of a script complete, if a text is unfinished before them.  One that
is unfinished behind them is none. -/
def commandsFrom (unfinished : List Char) : List (List Char) → Except Trouble (List Command)
  | [] => .ok []
  | line :: rest =>
    match typed? unfinished line with
    | none => commandsFrom [] rest
    | some text =>
      match Line.read text with
      | .error t => .error t
      | .ok .blank => commandsFrom [] rest
      | .ok .unfinished => commandsFrom (text ++ ['\n']) rest
      | .ok (.command c) => (commandsFrom [] rest).map (c :: ·)

/-- The commands of a script, in the order in which they appear. -/
def commandsOf (script : List Char) : Except Trouble (List Command) :=
  commandsFrom [] (Text.lines script)

/-! ## 2. Batches -/

namespace Session

variable [Language]

/-- A session with nothing typed. -/
def bare (s : Session) : Session := s.typed [] []

variable [Pattern.Engine]

/-- A session with nothing typed is left with nothing typed. -/
theorem bare_of_runEach {s s' : Session} {cs : List Command} {lines : List String}
    (h : s.bare.runEach cs = .ok (s', lines)) : s'.bare = s' := by
  rw [runEach_eq_runAll s.bare rfl, bare, runAll_frame] at h
  cases hresult : (s.runAll cs).result with
  | error t => simp [hresult, Effect.typed, Except.map] at h
  | ok all =>
    simp only [hresult, Effect.typed, Except.map, Except.ok.injEq, Prod.mk.injEq] at h
    rw [← h.1]
    rfl

/-- **Commands can be run one by one up to any point, and then the others.** -/
theorem runEach_append {s s' : Session} {lines : List String} (cs ds : List Command)
    (h : s.runEach (cs ++ ds) = .ok (s', lines)) :
    ∃ between front back, s.runEach cs = .ok (between, front) ∧
      between.runEach ds = .ok (s', back) ∧ lines = front ++ back := by
  induction cs generalizing s lines with
  | nil => exact ⟨s, [], lines, rfl, h, rfl⟩
  | cons c rest ih =>
    rw [List.cons_append, runEach] at h
    cases hresult : ({ s with waiting := [c] } : Session).execute.result with
    | error t => simp [hresult] at h
    | ok first =>
      simp only [hresult] at h
      cases hothers : ({ s with waiting := [c] } : Session).execute.session.runEach (rest ++ ds) with
      | error t => simp [hothers, Except.map] at h
      | ok others =>
        obtain ⟨last, out⟩ := others
        simp only [hothers, Except.map, Except.ok.injEq, Prod.mk.injEq] at h
        obtain ⟨rfl, rfl⟩ := h
        obtain ⟨between, front, back, hfront, hback, rfl⟩ := ih hothers
        refine ⟨between, first ++ front, back, ?_, hback, (List.append_assoc ..).symm⟩
        rw [runEach]
        simp only [hresult, hfront, Except.map]

/-- **A run does what the commands that wait do one by one**, and leaves a line unfinished that was
so before. -/
theorem execute_of_runEach {s s' : Session} {lines : List String}
    (h : s.bare.runEach s.waiting = .ok (s', lines)) :
    s.execute.result = .ok lines ∧ s.execute.session = s'.typed [] s.unfinished := by
  have hframe : { s with waiting := [] } = s.bare.typed [] s.unfinished := rfl
  rw [runEach_eq_runAll s.bare rfl] at h
  simp only [execute, hframe, runAll_frame, Effect.typed]
  cases hresult : (s.bare.runAll s.waiting).result with
  | error t => simp [hresult, Except.map] at h
  | ok all =>
    simp only [hresult, Except.map, Except.ok.injEq, Prod.mk.injEq] at h
    obtain ⟨rfl, rfl⟩ := h
    exact ⟨rfl, rfl⟩

end Session

namespace Console

section Scripts

variable [Pattern.Engine] [Language]

/-- The commands that a line of a script runs: those that wait, if their output is shown. -/
def batchOf (c : Console) (line : List Char) : List (List Command) :=
  if (c.obey line).shown.isEmpty then [] else [c.session.waiting]

/-- The batches of commands that lines of a script and its end run. -/
def batches (c : Console) : List (List Char) → List (List Command)
  | [] => if c.cursor = .idle then [] else [c.session.waiting]
  | line :: rest =>
    c.batchOf line ++
      match (c.obey line).console with
      | .error _ => []
      | .ok c => c.batches rest

/-! ## 3. What a line does -/

/-- A line is typed whole if the cursor is inside a command. -/
theorem obey_within {c : Console} (h : c.cursor = .within) (line : List Char) :
    c.obey line = c.add line := by
  unfold obey
  rw [h]

/-- A line that begins a command is typed without its mark. -/
theorem obey_command {c : Console} (h : c.cursor ≠ .within) (piece : List Char) :
    c.obey ('>' :: ' ' :: piece) = c.add piece := by
  unfold obey
  cases hcursor : c.cursor with
  | idle => rfl
  | ready => rfl
  | within => exact absurd hcursor h

/-- Any other line does nothing, or it runs what waits. -/
theorem obey_other {c : Console} (h : c.cursor ≠ .within) {line : List Char}
    (hline : ∀ piece, line ≠ '>' :: ' ' :: piece) :
    c.obey line = ⟨.ok c, []⟩ ∨ c.obey line = c.run := by
  unfold obey
  split
  · next hwithin => exact absurd hwithin h
  · next piece _ => exact absurd rfl (hline piece)
  · split
    · exact .inr rfl
    · exact .inl rfl
  · exact .inl rfl

/-- **A line that is no aside is typed behind what is unfinished.** -/
theorem Agrees.obey_typed {c : Console} (hc : c.Agrees) {line text : List Char}
    (h : typed? c.session.unfinished line = some text) :
    ∃ piece, text = c.session.unfinished ++ piece ∧ c.obey line = c.add piece := by
  by_cases hnone : c.session.unfinished = []
  · have hcursor : c.cursor ≠ .within := fun hwithin => hc.within.mp hwithin hnone
    rw [hnone] at h ⊢
    unfold typed? at h
    split at h
    · next piece _ =>
      cases h
      exact ⟨text, rfl, obey_command hcursor text⟩
    · cases h
    · next hne _ => exact absurd rfl hne
  · cases (typed?_of_ne hnone line).symm.trans h
    exact ⟨line, rfl, obey_within (hc.within.mpr hnone) line⟩

/-- **An aside does nothing, or it runs what waits.** -/
theorem Agrees.obey_aside {c : Console} (hc : c.Agrees) {line : List Char}
    (h : typed? c.session.unfinished line = none) :
    c.session.unfinished = [] ∧ (c.obey line = ⟨.ok c, []⟩ ∨ c.obey line = c.run) := by
  by_cases hnone : c.session.unfinished = []
  · refine ⟨hnone, obey_other (fun hwithin => hc.within.mp hwithin hnone) ?_⟩
    rintro piece rfl
    simp [hnone, typed?] at h
  · cases (typed?_of_ne hnone line).symm.trans h

/-! ## 4. What is still to be done -/

/-- **What is still to be done at a point of a script**: with what waits and then these commands, run
one by one, the session ends as `s'` and these lines are shown. -/
def Ahead (c : Console) (commands : List Command) (s' : Session) (lines : List String) : Prop :=
  c.session.bare.runEach (c.session.waiting ++ commands) = .ok (s', lines)

variable {c : Console} {commands : List Command} {s' : Session} {lines : List String}

/-- **A run does the first part of what is still to be done**: what waits. -/
theorem Ahead.run (h : c.Ahead commands s' lines) :
    ∃ s front back, c.run = ⟨.ok ⟨s, .idle⟩, [.output front]⟩ ∧ s.waiting = [] ∧
      s.unfinished = c.session.unfinished ∧ Ahead ⟨s, .idle⟩ commands s' back ∧
      lines = front ++ back := by
  obtain ⟨between, front, back, hfront, hback, hlines⟩ := Session.runEach_append _ _ h
  obtain ⟨hresult, hsession⟩ := Session.execute_of_runEach hfront
  refine ⟨between.typed [] c.session.unfinished, front, back, ?_, rfl, rfl, ?_, hlines⟩
  · unfold Console.run
    simp only [hresult, hsession]
  · have hbare : (between.typed [] c.session.unfinished).bare = between :=
      Session.bare_of_runEach hfront
    unfold Ahead
    rw [hbare]
    exact hback

/-- **The batch of a line is what the line runs**, unless that fails. -/
theorem batchOf_cases (c : Console) (line : List Char) :
    (c.batchOf line = [] ∧ (c.obey line).shown = []) ∨
    (c.batchOf line = [c.session.waiting] ∧ c.obey line = c.run) := by
  have hsilent : ∀ piece, c.obey line = c.add piece → (c.obey line).shown = [] := by
    intro piece hobey
    rw [hobey]
    unfold add
    split <;> rfl
  have hobey : (c.obey line).shown = [] ∨ c.obey line = c.run := by
    by_cases hcursor : c.cursor = .within
    · exact .inl (hsilent line (obey_within hcursor line))
    · by_cases hcommand : ∃ piece, line = '>' :: ' ' :: piece
      · obtain ⟨piece, rfl⟩ := hcommand
        exact .inl (hsilent piece (obey_command hcursor piece))
      · refine (obey_other hcursor fun piece hline => hcommand ⟨piece, hline⟩).imp ?_ id
        intro hnothing
        rw [hnothing]
  unfold batchOf
  split
  · next hempty => exact .inl ⟨rfl, List.isEmpty_iff.mp hempty⟩
  · next hempty =>
    exact .inr ⟨rfl, hobey.resolve_left fun hnone => hempty (List.isEmpty_iff.mpr hnone)⟩

/-- **A line that is typed moves the command that it completes, if any, to those that wait**, and
does nothing else but to leave another text unfinished. -/
theorem Agrees.obey_gains {line text : List Char} {rest : List (List Char)} (hc : c.Agrees)
    (htyped : typed? c.session.unfinished line = some text)
    (hgiven : commandsFrom c.session.unfinished (line :: rest) = .ok commands) :
    ∃ next gained others, c.obey line = ⟨.ok next, []⟩ ∧
      next.session.bare = c.session.bare ∧ next.session.waiting = c.session.waiting ++ gained ∧
      commandsFrom next.session.unfinished rest = .ok others ∧ commands = gained ++ others := by
  obtain ⟨piece, rfl, hobey⟩ := hc.obey_typed htyped
  unfold commandsFrom at hgiven
  simp only [htyped] at hgiven
  rcases c.session.add_cases piece with
    ⟨t, hread, hadd⟩ | ⟨hread, hadd⟩ | ⟨command, hread, hadd⟩ | ⟨hread, hadd⟩ <;>
    simp only [hread] at hgiven
  · cases hgiven
  · exact ⟨_, [], commands, hobey.trans (add_of_session hadd), rfl,
      (List.append_nil _).symm, hgiven, rfl⟩
  · cases hothers : commandsFrom [] rest with
    | error t => simp [hothers, Except.map] at hgiven
    | ok others =>
      simp only [hothers, Except.map, Except.ok.injEq] at hgiven
      exact ⟨_, [command], others, hobey.trans (add_of_session hadd), rfl, rfl, hothers,
        hgiven.symm⟩
  · exact ⟨_, [], commands, hobey.trans (add_of_session hadd), rfl,
      (List.append_nil _).symm, hgiven, rfl⟩

/-- Of a line of a script no output is shown but that of the commands it runs. -/
theorem outputs_play (c : Console) (line : List Char) :
    Event.outputs (c.play line).shown = Event.outputs (c.obey line).shown := by
  unfold play
  cases line <;> rfl

/-- **What a line of a script does is the first part of what is still to be done.**  If it runs
commands, they are those that wait. -/
theorem Agrees.obey_ahead {line : List Char} {rest : List (List Char)} (hc : c.Agrees)
    (hgiven : commandsFrom c.session.unfinished (line :: rest) = .ok commands)
    (h : c.Ahead commands s' lines) :
    ∃ next others back, (c.obey line).console = .ok next ∧
      commandsFrom next.session.unfinished rest = .ok others ∧ next.Ahead others s' back ∧
      lines = Event.outputs (c.obey line).shown ++ back ∧
      c.session.waiting ++ commands =
        (c.batchOf line).flatten ++ (next.session.waiting ++ others) := by
  cases htyped : typed? c.session.unfinished line with
  | some text =>
    obtain ⟨next, gained, others, hobey, hbare, hwaiting, hothers, rfl⟩ :=
      hc.obey_gains htyped hgiven
    have hmoved : c.session.waiting ++ (gained ++ others) = next.session.waiting ++ others := by
      rw [hwaiting, List.append_assoc]
    refine ⟨next, others, lines, by rw [hobey], hothers, ?_, by rw [hobey]; rfl, ?_⟩
    · unfold Ahead at h ⊢
      rw [hbare, ← hmoved]
      exact h
    · rw [batchOf, hobey, hmoved]
      rfl
  | none =>
    obtain ⟨hnone, hobey⟩ := hc.obey_aside htyped
    unfold commandsFrom at hgiven
    simp only [htyped] at hgiven
    rcases hobey with hobey | hobey
    · refine ⟨c, commands, lines, by rw [hobey], by rw [hnone]; exact hgiven, h,
        by rw [hobey]; rfl, ?_⟩
      rw [batchOf, hobey]
      rfl
    · obtain ⟨s, front, back, hrun, hwaiting, hunfinished, hahead, hlines⟩ := h.run
      refine ⟨⟨s, .idle⟩, commands, back, by rw [hobey, hrun], ?_, hahead, ?_, ?_⟩
      · show commandsFrom s.unfinished rest = .ok commands
        rw [hunfinished, hnone]
        exact hgiven
      · rw [hobey, hrun, hlines]
        simp [Event.outputs]
      · show _ = _ ++ (s.waiting ++ commands)
        rw [batchOf, hobey, hrun, hwaiting]
        simp

/-- **The end of a script does what is still to be done.** -/
theorem Agrees.finish_ahead (hc : c.Agrees) (h : c.Ahead [] s' lines) :
    ∃ last, c.finish.console = .ok last ∧ last.session.bare = s' ∧
      Event.outputs c.finish.shown = lines ∧ (c.batches []).flatten = c.session.waiting := by
  unfold Console.finish batches
  split
  · next hidle =>
    have hwaiting : c.session.waiting = [] := (hc.idle.mp hidle).2
    unfold Ahead at h
    rw [hwaiting] at h
    cases h
    exact ⟨c, rfl, rfl, rfl, hwaiting.symm⟩
  · obtain ⟨s, front, back, hrun, hwaiting, -, hahead, hlines⟩ := h.run
    unfold Ahead at hahead
    simp only [hwaiting] at hahead
    cases hahead
    refine ⟨⟨s, .idle⟩, by rw [hrun], rfl, ?_, by simp⟩
    rw [hrun, hlines]
    rfl

/-- **What the rest of a script does is what is still to be done.** -/
theorem Agrees.playAll_ahead {rest : List (List Char)} (hc : c.Agrees)
    (hgiven : commandsFrom c.session.unfinished rest = .ok commands)
    (h : c.Ahead commands s' lines) :
    ∃ between last, (c.playAll rest).console = .ok between ∧ between.finish.console = .ok last ∧
      last.session.bare = s' ∧
      Event.outputs ((c.playAll rest).shown ++ between.finish.shown) = lines ∧
      (c.batches rest).flatten = c.session.waiting ++ commands := by
  induction rest generalizing c commands lines with
  | nil =>
    cases hgiven
    obtain ⟨last, hlast, hbare, hshown, hbatches⟩ := hc.finish_ahead h
    exact ⟨c, last, rfl, hlast, hbare, hshown, hbatches.trans (List.append_nil _).symm⟩
  | cons line rest ih =>
    obtain ⟨next, others, back, hobey, hothers, hahead, hlines, hmoved⟩ := hc.obey_ahead hgiven h
    obtain ⟨between, last, hplay, hlast, hbare, hshown, hbatches⟩ :=
      ih (hc.obey hobey) hothers hahead
    have hline : (c.play line).console = .ok next := hobey
    refine ⟨between, last, ?_, hlast, hbare, ?_, ?_⟩
    · unfold Console.playAll
      simp only [hline, hplay]
    · have hshows : (c.playAll (line :: rest)).shown =
          (c.play line).shown ++ (next.playAll rest).shown := by
        rw [Console.playAll]
        simp only [hline]
      rw [hshows, List.append_assoc, Event.outputs_append, hshown, c.outputs_play, hlines]
    · rw [batches, hobey, List.flatten_append, hbatches, hmoved]

/-! ## 5. The whole script -/

/-- **A script runs each of its commands exactly once, in the order in which they appear**, if all
of them can be read and run, whatever the engine and the language make of patterns and predicates.
The document, the predicates, what these remember and the lines of all outputs are then those of the
commands run one after the other, each in a batch of its own. -/
theorem script_runs_each_command_once (text : String) (keepCase : Bool) (script : List Char)
    (hread : commandsOf script = .ok commands)
    (hrun : (Session.ofText text keepCase).runEach commands = .ok (s', lines)) :
    let start : Console := ⟨Session.ofText text keepCase, .idle⟩
    (start.batches (Text.lines script)).flatten = commands ∧
    ∃ last, (start.playScript script).console = .ok last ∧
      last.session.document = s'.document ∧ last.session.predicates = s'.predicates ∧
      last.session.memory = s'.memory ∧
      Event.outputs (start.playScript script).shown = lines := by
  intro start
  obtain ⟨between, last, hplay, hlast, hbare, hshown, hbatches⟩ :=
    (agrees_ofText text keepCase).playAll_ahead hread hrun
  refine ⟨hbatches, last, ?_, ?_, ?_, ?_, ?_⟩
  · unfold playScript
    simp only [start, hplay, hlast]
  · exact congrArg (fun s => s.document) hbare
  · exact congrArg (fun s => s.predicates) hbare
  · exact congrArg (fun s => s.memory) hbare
  · unfold playScript
    simp only [start, hplay]
    exact hshown

end Scripts

/-- Commands among blank lines and asides, with quoted texts that hold a blank line and a line that
looks like a command, and one command that is left unfinished. -/
theorem script_runs_each_command_once_quoted :
    let script :=
      ("Notes\n\n> udp('one \"1 <\n\n2\")\n> tags()\nnot yet\n \n> show(\"a\n> b\")\n" ++
        "> show(\"a").toList
    let start : Console := ⟨Session.ofText "A\n> b c" false, .idle⟩
    let commands := [.predicate "one" "1 <\n\n2".toList, .tags, .spans (.literal "a\n> b")]
    commandsOf script = .ok commands ∧ (start.batches (Text.lines script)).flatten = commands ∧
    ∃ last, (start.playScript script).console = .ok last ∧
      last.session.predicates.map Prod.fst = ["one"] ∧
      Event.outputs (start.playScript script).shown =
        ["registered predicate one", "0+[0, 5) \"a\\n> b\"", "1 locations"] := by
  intro script start commands
  have hread : commandsOf script = .ok commands := by rfl
  have hends : (start.session.runEach commands).toOption.map
      (fun p => (p.1.predicates.map Prod.fst, p.2)) =
      some (["one"], ["registered predicate one", "0+[0, 5) \"a\\n> b\"", "1 locations"]) := by
    decide +kernel +zetaReduce
  cases hrun : start.session.runEach commands with
  | error t =>
    rw [hrun] at hends
    cases hends
  | ok p =>
    obtain ⟨s', lines⟩ := p
    simp only [hrun, Except.toOption, Option.map_some, Option.some.injEq, Prod.mk.injEq] at hends
    obtain ⟨hbatches, last, hlast, -, hpredicates, -, hshown⟩ :=
      script_runs_each_command_once "A\n> b c" false script hread hrun
    exact ⟨hread, hbatches, last, hlast, hpredicates ▸ hends.1, hshown.trans hends.2⟩

end Console

end TaggedText.Shell
