/-
# Commands on several lines

A line that ends inside a quoted text is kept, and what is typed next continues it behind a line
break.  **A command whose line breaks all stand in its quoted texts can so be typed line by line**:
every front of it, up to one of its line breaks, is an unfinished line (`Line.read_front`), the last
piece completes it, and the session is left as if all had been typed at once
(`pieces_complete_the_command`).  The texts of the command are what stands in marks
(`Line.texts_of_read`), so the line breaks are where they were typed.
-/
import TaggedText.Formula
import TaggedText.Proofs.Shell.Quoted
import TaggedText.Proofs.Shell.Typing

namespace TaggedText

/-! ## 1. Commands -/

/-- The text of a reference to a literal. -/
def Reference.texts : Reference → List (List Char)
  | .tag _ => []
  | .literal text => [text.toList]

namespace Shell

theorem Form.texts_reference {f : Form} {reference : Reference} (h : f.reference? = some reference) :
    reference.texts = f.texts := by
  cases f <;> cases h <;> simp [Reference.texts, Form.texts]

theorem Form.texts_tag {f : Form} {tag : String} (h : f.tag? = some tag) : f.texts = [] := by
  cases f <;> cases h
  rfl

/-- What each of some forms stands for has the texts of the form; so all together have all texts. -/
theorem Form.textsAll_of_mapM {α : Type} {g : Form → Option α} {textsOf : α → List (List Char)}
    (hg : ∀ f a, g f = some a → textsOf a = f.texts) {forms : List Form} {all : List α}
    (h : forms.mapM g = some all) : all.flatMap textsOf = Form.textsAll forms := by
  induction forms generalizing all with
  | nil =>
    cases h
    rfl
  | cons f forms ih =>
    rw [List.mapM_cons] at h
    obtain ⟨a, ha, h⟩ := Option.bind_eq_some_iff.mp h
    obtain ⟨others, hothers, h⟩ := Option.bind_eq_some_iff.mp h
    cases h
    rw [List.flatMap_cons, hg f a ha, ih hothers, Form.textsAll]

namespace Command

/-- The quoted texts of a command, in the order in which they are typed. -/
def texts : Command → List (List Char)
  | regex _ pattern _ _ => [pattern.toList]
  | between _ _ _ _ => []
  | column _ needle => [needle.toList]
  | project _ _ _ => []
  | spans reference => reference.texts
  | tags => []
  | delete _ => []
  | untagged references => references.flatMap Reference.texts
  | replace _ new => [new]
  | apply _ => []
  | predicate _ source => [source]
  | query text references => text.toList :: references.flatMap Reference.texts

theorem texts_matches {overlapped : Bool} {arguments : List Form} {c : Command}
    (h : matches? overlapped arguments = some c) : c.texts = Form.textsAll arguments := by
  unfold matches? at h
  split at h <;> cases h <;> simp [texts, Form.textsAll, Form.texts]

/-- **A command has the texts of its arguments.** -/
theorem texts_ofCall {name : String} {arguments : List Form} {c : Command}
    (h : ofCall? name arguments = some c) : c.texts = Form.textsAll arguments := by
  have hreferences : ∀ {forms : List Form} {references : List Reference},
      forms.mapM Form.reference? = some references →
      references.flatMap Reference.texts = Form.textsAll forms :=
    Form.textsAll_of_mapM fun _ _ => Form.texts_reference
  unfold ofCall? at h
  split at h
  · exact texts_matches h
  · exact texts_matches h
  · cases h
    simp [texts, Form.textsAll, Form.texts]
  · cases h
    simp [texts, Form.textsAll, Form.texts]
  · cases h
    simp [texts, Form.textsAll, Form.texts]
  · next f =>
    obtain ⟨reference, hreference, rfl⟩ := Option.map_eq_some_iff.mp h
    simp [texts, Form.textsAll, Form.texts_reference hreference]
  · cases h
    rfl
  · cases h
    simp [texts, Form.textsAll, Form.texts]
  · next forms =>
    obtain ⟨references, hforms, rfl⟩ := Option.map_eq_some_iff.mp h
    exact hreferences hforms
  · cases h
    simp [texts, Form.textsAll, Form.texts]
  · obtain ⟨tags, hforms, rfl⟩ := Option.map_eq_some_iff.mp h
    have hnone : tags.flatMap (fun _ => []) = Form.textsAll arguments :=
      Form.textsAll_of_mapM (fun _ _ htag => (Form.texts_tag htag).symm) hforms
    rw [← hnone, List.flatMap_eq_nil_iff.mpr fun _ _ => rfl]
    rfl
  · cases h
    simp [texts, Form.textsAll, Form.texts]
  · next text forms =>
    obtain ⟨references, hforms, rfl⟩ := Option.map_eq_some_iff.mp h
    simp [texts, Form.textsAll, Form.texts, hreferences hforms]
  · cases h

end Command

/-! ## 2. Lines -/

/-- The parts of a text that stand in marks. -/
def Form.quotedParts (text : List Char) : List (List Char) := parts false text

/-- **All line breaks are quoted**: no part outside of the marks holds one. -/
def Form.BreaksQuoted (text : List Char) : Prop := Unbroken true text

instance (text : List Char) : Decidable (Form.BreaksQuoted text) :=
  inferInstanceAs (Decidable (Form.Unbroken true text))

theorem ne_textMark_of_isBlank {c : Char} (h : Text.isBlank c = true) : c ≠ Form.textMark :=
  Form.ne_textMark h (by decide)

theorem textMark_notMem_of_allBlank {text : List Char} (h : Text.allBlank text = true) :
    Form.textMark ∉ text :=
  fun hmem => ne_textMark_of_isBlank (List.all_eq_true.mp h _ hmem) rfl

theorem Form.quotedParts_dropBlanks (text : List Char) :
    quotedParts (Text.dropBlanks text) = quotedParts text := by
  induction text with
  | nil => rfl
  | cons c text ih =>
    by_cases hc : Text.isBlank c = true
    · rw [Text.dropBlanks, List.dropWhile_cons_of_pos hc, quotedParts, quotedParts,
        parts_cons (ne_textMark_of_isBlank hc)]
      exact ih
    · rw [Text.dropBlanks, List.dropWhile_cons_of_neg hc]

theorem Form.Unbroken.dropBlanks {first : Bool} {text : List Char} (h : Unbroken first text) :
    Unbroken first (Text.dropBlanks text) := by
  induction text with
  | nil => exact h
  | cons c text ih =>
    by_cases hc : Text.isBlank c = true
    · rw [Text.dropBlanks, List.dropWhile_cons_of_pos hc]
      exact ih (h.tail (ne_textMark_of_isBlank hc))
    · rwa [Text.dropBlanks, List.dropWhile_cons_of_neg hc]

namespace Line

variable {line front back : List Char} {c : Command}

/-- **A line that is a command** is a call that some command answers to, among blanks. -/
theorem of_read_command (h : Line.read line = .ok (.command c)) :
    ∃ name arguments rest,
      Form.read (Text.dropBlanks line) = .form (.call name arguments) rest ∧
      Text.allBlank rest = true ∧ Command.ofCall? (String.ofList name) arguments = some c := by
  unfold Line.read at h
  split at h
  · cases h
  · split at h
    · next f rest hform =>
      unfold Line.ofForm at h
      split at h
      · cases h
      · next hrest =>
        split at h
        · next name arguments =>
          split at h
          · next hcall =>
            cases h
            exact ⟨name, arguments, rest, hform, by simpa using hrest, hcall⟩
          · cases h
        · cases h
    · cases h
    · cases h
    · cases h

/-- **The texts of a command are what stands in marks in its line.** -/
theorem texts_of_read (h : Line.read line = .ok (.command c)) :
    c.texts = Form.quotedParts line := by
  obtain ⟨name, arguments, rest, hform, hrest, hcall⟩ := of_read_command h
  calc c.texts = Form.textsAll arguments := Command.texts_ofCall hcall
    _ = Form.quotedParts (Text.dropBlanks line) :=
      Form.texts_of_read hform (textMark_notMem_of_allBlank hrest)
    _ = Form.quotedParts line := Form.quotedParts_dropBlanks line

/-- **The front of a command's line, up to a quoted line break, is an unfinished line.** -/
theorem read_front (h : Line.read (front ++ '\n' :: back) = .ok (.command c))
    (hbreaks : Form.Unbroken true (front ++ '\n' :: back)) :
    Line.read front = .ok .unfinished := by
  have hfront : Text.allBlank front = false := by
    refine Bool.eq_false_iff.mpr fun hblank => ?_
    exact Form.not_unbroken (textMark_notMem_of_allBlank hblank) hbreaks
  have hdrop : Text.dropBlanks (front ++ '\n' :: back) = Text.dropBlanks front ++ '\n' :: back := by
    have hne : Text.dropBlanks front ≠ [] := by
      rw [Ne, Text.dropBlanks_eq_nil_iff, hfront]
      decide
    rw [Text.dropBlanks, List.dropWhile_append, if_neg (by simpa [Text.dropBlanks] using hne)]
    rfl
  obtain ⟨name, arguments, rest, hform, hrest, -⟩ := of_read_command h
  have hbreaks := hbreaks.dropBlanks
  rw [hdrop] at hform hbreaks
  have hread : Form.read (Text.dropBlanks front) = .incomplete :=
    Form.read_eq_incomplete hform (textMark_notMem_of_allBlank hrest) hbreaks
  unfold Line.read
  rw [hfront, hread]
  rfl

end Line

/-! ## 3. Typing in pieces -/

namespace Session

/-- Pieces are typed one after the other: what comes of each. -/
def addAll [Language] (s : Session) : List (List Char) → Session × List (Except Trouble Cursor)
  | [] => (s, [])
  | piece :: rest =>
    let first := s.add piece
    let others := first.1.addAll rest
    (others.1, first.2 :: others.2)

/-- **Pieces of a line are kept until the last one completes it**, if every front of the line up to a
line break is an unfinished line. -/
theorem addAll_of_fronts [Language] {c : Command} {pieces : List (List Char)}
    (hpieces : pieces ≠ []) :
    ∀ {s : Session},
      Line.read (s.unfinished ++ ['\n'].intercalate pieces) = .ok (.command c) →
      (∀ front back, s.unfinished ++ ['\n'].intercalate pieces = front ++ '\n' :: back →
        Line.read front = .ok .unfinished) →
      s.addAll pieces =
        ({ s with unfinished := [], waiting := s.waiting ++ [c] },
          List.replicate (pieces.length - 1) (.ok .within) ++ [.ok .ready]) := by
  induction pieces with
  | nil => exact absurd rfl hpieces
  | cons piece rest ih =>
    intro s hread hfronts
    cases rest with
    | nil =>
      rw [List.intercalate_singleton] at hread
      simp [addAll, add, hread]
    | cons next rest =>
      rw [List.intercalate_cons_cons] at hread hfronts
      have hfirst : Line.read (s.unfinished ++ piece) = .ok .unfinished :=
        hfronts (s.unfinished ++ piece) (['\n'].intercalate (next :: rest)) (by simp)
      have hadd : s.add piece =
          ({ s with unfinished := s.unfinished ++ piece ++ ['\n'] }, .ok .within) := by
        simp [add, hfirst]
      have hrest := ih (by simp) (s := { s with unfinished := s.unfinished ++ piece ++ ['\n'] })
        (by simpa using hread) (by simpa using hfronts)
      rw [addAll, hadd]
      simp only [hrest]
      rfl

/-- **A command may be typed in pieces.**  If all line breaks in the line of a command stand inside its
quoted texts, typing it line by line leaves it unfinished until the last piece completes it, and what
waits then is what waits after the whole is typed at once.  Its texts are what stands in marks in
the line, with the line breaks. -/
theorem pieces_complete_the_command [Language] {s : Session} {line : List Char} {c : Command}
    (hs : s.unfinished = []) (hread : Line.read line = .ok (.command c))
    (hbreaks : Form.BreaksQuoted line) :
    s.addAll (line.splitOn '\n') =
      ({ s with waiting := s.waiting ++ [c] },
        List.replicate ((line.splitOn '\n').length - 1) (.ok .within) ++ [.ok .ready]) ∧
    s.add line = ({ s with waiting := s.waiting ++ [c] }, .ok .ready) ∧
    c.texts = Form.quotedParts line := by
  have hkept : ({ s with unfinished := [], waiting := s.waiting ++ [c] } : Session) =
      { s with waiting := s.waiting ++ [c] } := by rw [← hs]
  have hjoin : s.unfinished ++ ['\n'].intercalate (line.splitOn '\n') = line := by
    rw [hs, List.nil_append, List.intercalate_splitOn]
  refine ⟨?_, ?_, Line.texts_of_read hread⟩
  · rw [addAll_of_fronts (List.splitOn_ne_nil '\n' line) (hjoin ▸ hread)]
    · rw [hkept]
    · intro front back hsplit
      rw [hjoin] at hsplit
      subst hsplit
      exact Line.read_front hread hbreaks
  · simp [add, hs, hread]

/-- Two quoted texts with line breaks, one of them an empty line, behind a command that waits. -/
theorem pieces_complete_the_command_of_two_texts :
    let s : Session := { document := Document.ofString "a b" true, waiting := [.tags] }
    let line := " query(\"before(0,\n\n1)\", 'w \"a\nb\") ".toList
    let c : Command := .query "before(0,\n\n1)" [.tag "w", .literal "a\nb"]
    s.unfinished = [] ∧ Line.read line = .ok (.command c) ∧ Form.BreaksQuoted line ∧
    s.addAll [" query(\"before(0,".toList, [], "1)\", 'w \"a".toList, "b\") ".toList] =
      ({ s with waiting := [.tags, c] }, [.ok .within, .ok .within, .ok .within, .ok .ready]) ∧
    s.add line = ({ s with waiting := [.tags, c] }, .ok .ready) ∧
    c.texts = ["before(0,\n\n1)".toList, "a\nb".toList] := by
  intro s line c
  have hread : Line.read line = .ok (.command c) := by rfl
  have hbreaks : Form.BreaksQuoted line := by decide
  obtain ⟨hpieces, hwhole, htexts⟩ := pieces_complete_the_command (s := s) rfl hread hbreaks
  exact ⟨rfl, hread, hbreaks, hpieces, hwhole, htexts⟩

end Session

end Shell

end TaggedText
