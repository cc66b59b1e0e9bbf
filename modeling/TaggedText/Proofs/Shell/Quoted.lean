/-
# What is quoted in a form

The marks of a written form come in pairs: a quoted text cannot hold one, and outside of quoted
texts there is nothing else that is written with it.  So a text that begins with a form can be cut
at its marks without being read, and its parts are by turns outside and inside of them (`parts`).

The reader makes the same distinction character by character (`quotes_step`): a mark is all that
takes it into a text or out of one.  Two things follow by induction on the text.  **The texts of a
form are the parts that stand in marks** (`texts_of_read`), and **a form that is cut inside one of
them is incomplete** (`read_eq_incomplete`), never complete and never wrong.  Both need that there is
no mark behind the form, as one there would make a pair with none.
-/
import TaggedText.Shell.Form.Reader
import Mathlib.Data.List.Basic

namespace TaggedText.Shell

/-! ## 1. Parts between marks -/

/-- Every second member of a list, from the first or from the second one on. -/
def alternate {α : Type} (first : Bool) : List α → List α
  | [] => []
  | a :: rest => if first then a :: alternate (!first) rest else alternate (!first) rest

namespace Form

/-- Every second one of the parts into which a text is cut by its marks: those that are outside of
the marks, with the first part, or those that are inside. -/
def parts (first : Bool) (text : List Char) : List (List Char) :=
  alternate first (text.splitOn textMark)

/-- A character of a kind that the mark is not of. -/
theorem ne_textMark {p : Char → Bool} {c : Char} (hc : p c = true) (hmark : p textMark = false) :
    c ≠ textMark := by
  rintro rfl
  rw [hc] at hmark
  cases hmark

/-- There is always a part that no mark opens. -/
theorem exists_part (text : List Char) : ∃ part others, parts true text = part :: others := by
  unfold parts
  cases hsplit : text.splitOn textMark with
  | nil => exact absurd hsplit (List.splitOn_ne_nil textMark text)
  | cons part rest => exact ⟨part, alternate false rest, rfl⟩

/-- No part among every second of them holds a line break. -/
def Unbroken (first : Bool) (text : List Char) : Prop := ∀ part ∈ parts first text, '\n' ∉ part

instance (first : Bool) (text : List Char) : Decidable (Unbroken first text) :=
  inferInstanceAs (Decidable (∀ part ∈ parts first text, '\n' ∉ part))

theorem parts_mark (first : Bool) (text : List Char) :
    parts first (textMark :: text) =
      if first then [] :: parts false text else parts true text := by
  rw [parts, List.splitOn_cons_eq_if_modifyHead]
  cases first <;> rfl

theorem parts_cons {c : Char} (hc : c ≠ textMark) (first : Bool) (text : List Char) :
    parts first (c :: text) =
      if first then (parts first text).modifyHead (c :: ·) else parts first text := by
  have hmark : (c == textMark) = false := beq_eq_false_iff_ne.mpr hc
  rw [parts, parts, List.splitOn_cons_eq_if_modifyHead, hmark]
  cases hsplit : text.splitOn textMark with
  | nil => exact absurd hsplit (List.splitOn_ne_nil textMark text)
  | cons part rest => cases first <;> rfl

theorem parts_of_notMem {text : List Char} (h : textMark ∉ text) (first : Bool) :
    parts first text = if first then [text] else [] := by
  rw [parts, List.splitOn_eq_singleton h]
  rfl

theorem unbroken_mark {first : Bool} {text : List Char} :
    Unbroken first (textMark :: text) ↔ Unbroken (!first) text := by
  cases first <;> simp [Unbroken, parts_mark]

theorem Unbroken.tail {first : Bool} {c : Char} (hc : c ≠ textMark) {text : List Char}
    (h : Unbroken first (c :: text)) : Unbroken first text := by
  unfold Unbroken at h ⊢
  rw [parts_cons hc] at h
  cases first with
  | false => exact h
  | true =>
    cases hparts : parts true text with
    | nil => simp
    | cons part others => simp_all

/-- **A line break in front of all marks is not quoted.** -/
theorem not_unbroken {front back : List Char} (h : textMark ∉ front) :
    ¬ Unbroken true (front ++ '\n' :: back) := by
  induction front with
  | nil =>
    obtain ⟨part, others, hparts⟩ := exists_part back
    rw [List.nil_append, Unbroken, parts_cons (by decide), hparts]
    simp
  | cons c front ih =>
    intro hunbroken
    simp only [List.mem_cons, not_or] at h
    exact ih h.2 (hunbroken.tail (Ne.symm h.1))

/-! ## 2. The texts of a form -/

mutual

/-- The texts of a form, in the order in which they stand in it. -/
def texts : Form → List (List Char)
  | .call _ arguments => textsAll arguments
  | .number _ => []
  | .text content => [content]
  | .symbol _ => []

/-- The texts of forms, one form after the other. -/
def textsAll : List Form → List (List Char)
  | [] => []
  | f :: rest => f.texts ++ textsAll rest

end

theorem textsAll_append (front back : List Form) :
    textsAll (front ++ back) = textsAll front ++ textsAll back := by
  induction front with
  | nil => rfl
  | cons f front ih => simp [textsAll, ih]

/-- The texts that have been read in open calls, the outermost one first. -/
def textsOf : List Opened → List (List Char)
  | [] => []
  | inner :: outer => textsOf outer ++ textsAll inner.arguments.reverse

theorem textsOf_push (inner : Opened) (outer : List Opened) (f : Form) :
    textsOf ({ inner with arguments := f :: inner.arguments } :: outer) =
      textsOf (inner :: outer) ++ f.texts := by
  simp [textsOf, textsAll_append, textsAll]

/-- The reader is inside a quoted text. -/
def Place.isQuoted : Place → Bool
  | .inText _ => true
  | _ => false

/-- The texts that a text still has when it is read from a place on: one that has begun goes on. -/
def textsAhead : Place → List Char → List (List Char)
  | .inText content, ahead => (parts true ahead).modifyHead (content.reverse ++ ·)
  | _, ahead => parts false ahead

theorem textsAhead_of_not_isQuoted {place : Place} (h : place.isQuoted = false)
    (text : List Char) : textsAhead place text = parts false text := by
  cases place <;> simp_all [textsAhead, Place.isQuoted]

/-! ## 3. What a character does -/

/-- **What a character does to the texts of a form.**  Inside a text it belongs to the text or ends
it; outside, a mark begins a text, and any other character leaves the texts as they are. -/
inductive Quotes : State → Char → Step → Prop where
  | inside {calls : List Opened} {content : List Char} {c : Char} (hc : c ≠ textMark) :
    Quotes ⟨calls, .inText content⟩ c (.next ⟨calls, .inText (c :: content)⟩)
  | closes (calls : List Opened) (content : List Char) :
    Quotes ⟨calls, .inText content⟩ textMark (finish calls (.text content.reverse) true)
  | opens {calls : List Opened} {place : Place} (hplace : place.isQuoted = false) :
    Quotes ⟨calls, place⟩ textMark (.next ⟨calls, .inText []⟩)
  | outside {calls calls' : List Opened} {place place' : Place} {c : Char}
    (hplace : place.isQuoted = false) (hc : c ≠ textMark) (hplace' : place'.isQuoted = false)
    (htexts : textsOf calls' = textsOf calls) :
    Quotes ⟨calls, place⟩ c (.next ⟨calls', place'⟩)
  | ends {calls : List Opened} {place : Place} {c : Char} {f : Form} {taken : Bool}
    (hplace : place.isQuoted = false) (hc : taken = true → c ≠ textMark)
    (htexts : f.texts = textsOf calls) : Quotes ⟨calls, place⟩ c (.done f taken)
  | mismatch (s : State) (c : Char) : Quotes s c .mismatch
  | failure (s : State) (c : Char) : Quotes s c .failure

section Steps

variable {calls : List Opened} {place : Place} {c : Char}

theorem quotes_refuse (s : State) (c : Char) : Quotes s c (refuse calls) := by
  cases calls with
  | nil => exact .mismatch s c
  | cons inner outer => exact .failure s c

theorem quotes_begin (hplace : place.isQuoted = false) {next : Place} (h : begin? c = some next) :
    Quotes ⟨calls, place⟩ c (.next ⟨calls, next⟩) := by
  by_cases hc : c = textMark
  · subst hc
    cases h
    exact .opens hplace
  · refine .outside hplace hc ?_ rfl
    unfold begin? at h
    grind [Place.isQuoted]

theorem quotes_element (hplace : place.isQuoted = false) :
    Quotes ⟨calls, place⟩ c (element calls c) := by
  unfold element
  split
  · next next hbegin => exact quotes_begin hplace hbegin
  · exact quotes_refuse _ c

/-- A form without texts, or a call with those of its arguments, is put to the outer call. -/
theorem quotes_finish (hplace : place.isQuoted = false) (hc : c ≠ textMark) {f : Form}
    {outer : List Opened} (htexts : textsOf outer ++ f.texts = textsOf calls) :
    Quotes ⟨calls, place⟩ c (finish outer f true) := by
  cases outer with
  | nil => exact .ends hplace (fun _ => hc) htexts
  | cons inner outer =>
    refine .outside hplace hc rfl ?_
    rw [textsOf_push, htexts]

theorem quotes_close (hplace : place.isQuoted = false) (hc : c ≠ textMark)
    {calls' : List Opened} (htexts : textsOf calls' = textsOf calls) :
    Quotes ⟨calls, place⟩ c (close calls') := by
  cases calls' with
  | nil => exact .mismatch _ c
  | cons inner outer => exact quotes_finish hplace hc htexts

theorem quotes_afterForm (hplace : place.isQuoted = false) {calls' : List Opened}
    (htexts : textsOf calls' = textsOf calls) :
    Quotes ⟨calls, place⟩ c (afterForm calls' c) := by
  unfold afterForm
  split
  · next hgap => exact .outside hplace (ne_textMark hgap rfl) rfl htexts
  · split
    · next hcomma => exact .outside hplace (by subst hcomma; decide) rfl htexts
    · split
      · next hclose => exact quotes_close hplace (by subst hclose; decide) htexts
      · exact quotes_refuse _ c

theorem quotes_finishBefore (hplace : place.isQuoted = false) {f : Form} (hf : f.texts = []) :
    Quotes ⟨calls, place⟩ c (finishBefore calls f c) := by
  cases calls with
  | nil => exact .ends hplace (fun htaken => by cases htaken) hf
  | cons inner outer =>
    refine quotes_afterForm hplace ?_
    rw [textsOf_push, hf, List.append_nil]

end Steps

/-- **Every character does one of these things.** -/
theorem quotes_step (s : State) (c : Char) : Quotes s c (s.step c) := by
  obtain ⟨calls, place⟩ := s
  cases place with
  | outset => exact quotes_element rfl
  | opened =>
    simp only [State.step]
    split
    · next hgap => exact .outside rfl (ne_textMark hgap rfl) rfl rfl
    · split
      · next hclose => exact quotes_close rfl (by subst hclose; decide) rfl
      · exact quotes_element rfl
  | separated =>
    simp only [State.step]
    split
    · next hgap => exact .outside rfl (ne_textMark hgap rfl) rfl rfl
    · exact quotes_element rfl
  | behind => exact quotes_afterForm rfl rfl
  | apart =>
    simp only [State.step]
    split
    · next next hbegin => exact quotes_begin rfl hbegin
    · exact quotes_afterForm rfl rfl
  | naming letters =>
    simp only [State.step]
    split
    · next hletter => exact .outside rfl (ne_textMark hletter rfl) rfl rfl
    · split
      · next hgap => exact .outside rfl (ne_textMark hgap rfl) rfl rfl
      · split
        · next hopen => exact .outside rfl (by subst hopen; decide) rfl (List.append_nil _)
        · exact quotes_refuse _ c
  | named letters =>
    simp only [State.step]
    split
    · next hgap => exact .outside rfl (ne_textMark hgap rfl) rfl rfl
    · split
      · next hopen => exact .outside rfl (by subst hopen; decide) rfl (List.append_nil _)
      · exact quotes_refuse _ c
  | inNumber n =>
    simp only [State.step]
    split
    · exact quotes_refuse _ c
    · split
      · next hdigit => exact .outside rfl (ne_textMark hdigit rfl) rfl rfl
      · exact quotes_finishBefore rfl rfl
  | inText content =>
    simp only [State.step]
    split
    · next hmark =>
      subst hmark
      exact .closes calls content
    · next hmark => exact .inside hmark
  | inSymbol name =>
    simp only [State.step]
    split
    · next hsymbolic => exact .outside rfl (ne_textMark hsymbolic rfl) rfl rfl
    · split
      · exact .failure _ c
      · exact quotes_finishBefore rfl rfl

/-! ## 4. What is read -/

/-- A form that is complete where its text ends is a number or a symbol that stands by itself. -/
theorem of_atEnd {s : State} {f : Form} {rest : List Char} (h : s.atEnd = .form f rest) :
    s.place.isQuoted = false ∧ s.calls = [] ∧ f.texts = [] := by
  unfold State.atEnd at h
  split at h
  · cases h
  · next hplace hcalls =>
    split at h
    · cases h
    · cases h
      exact ⟨by rw [hplace]; rfl, hcalls, rfl⟩
  · next hplace hcalls =>
    cases h
    exact ⟨by rw [hplace]; rfl, hcalls, rfl⟩
  · cases h
  · cases h
  · cases h

/-- **The texts of a form that is read are what stands in marks**, behind those that were read in
the open calls before. -/
theorem texts_of_read {s : State} {text : List Char} {f : Form} {rest : List Char}
    (h : s.read text = .form f rest) (hrest : textMark ∉ rest) :
    f.texts = textsOf s.calls ++ textsAhead s.place text := by
  induction text generalizing s with
  | nil =>
    obtain ⟨hplace, hcalls, htexts⟩ := of_atEnd h
    rw [htexts, hcalls, textsAhead_of_not_isQuoted hplace]
    rfl
  | cons c text ih =>
    rw [State.read] at h
    have hquotes := quotes_step s c
    generalize s.step c = step at h hquotes
    cases hquotes with
    | inside hc =>
      rw [ih h]
      simp [textsAhead, parts_cons hc, Function.comp_def]
    | closes calls content =>
      cases calls with
      | nil =>
        -- the form is this text, and the part behind it is the last one
        cases h
        simp [textsAhead, texts, textsOf, parts_mark, parts_of_notMem hrest]
      | cons inner outer =>
        rw [ih h, textsOf_push]
        simp [textsAhead, texts, parts_mark]
    | opens hplace =>
      rw [ih h, textsAhead_of_not_isQuoted hplace, parts_mark]
      exact congrArg (textsOf _ ++ ·) (congrFun List.modifyHead_id (parts true text))
    | outside hplace hc hplace' htexts =>
      rw [ih h, textsAhead_of_not_isQuoted hplace, textsAhead_of_not_isQuoted hplace', htexts]
      simp [parts_cons hc]
    | @ends calls place c f' taken hplace hc htexts =>
      rw [textsAhead_of_not_isQuoted hplace]
      cases taken with
      | true =>
        cases h
        simp [htexts, parts_cons (hc rfl), parts_of_notMem hrest]
      | false =>
        cases h
        simp [htexts, parts_of_notMem hrest]
    | mismatch => cases h
    | failure => cases h

/-- **A text that is cut at a quoted line break is incomplete**, if a form can be read from the
whole and no mark is left behind it. -/
theorem read_eq_incomplete {s : State} {front back : List Char} {f : Form} {rest : List Char}
    (h : s.read (front ++ '\n' :: back) = .form f rest) (hrest : textMark ∉ rest)
    (hbreaks : Unbroken (!s.place.isQuoted) (front ++ '\n' :: back)) :
    s.read front = .incomplete := by
  induction front generalizing s with
  | nil =>
    obtain ⟨calls, place⟩ := s
    cases place with
    | inText content => rfl
    | _ => exact absurd hbreaks (not_unbroken List.not_mem_nil)
  | cons c front ih =>
    rw [List.cons_append, State.read] at h
    rw [List.cons_append] at hbreaks
    rw [State.read]
    have hquotes := quotes_step s c
    generalize s.step c = step at h hquotes
    cases hquotes with
    | inside hc => exact ih h (hbreaks.tail hc)
    | closes calls content =>
      cases calls with
      | nil =>
        -- the line break would be behind the form, where no marks are
        cases h
        exact absurd (unbroken_mark.mp hbreaks)
          (not_unbroken fun hmem => hrest (List.mem_append_left _ hmem))
      | cons inner outer => exact ih h (unbroken_mark.mp hbreaks)
    | opens hplace =>
      rw [hplace, unbroken_mark] at hbreaks
      exact ih h hbreaks
    | outside hplace hc hplace' htexts =>
      refine ih h ?_
      rw [hplace] at hbreaks
      rw [hplace']
      exact hbreaks.tail hc
    | @ends calls place c f' taken hplace hc htexts =>
      rw [hplace] at hbreaks
      cases taken with
      | true =>
        cases h
        exact absurd (hbreaks.tail (hc rfl))
          (not_unbroken fun hmem => hrest (List.mem_append_left _ hmem))
      | false =>
        cases h
        have hfront : textMark ∉ c :: front :=
          fun hmem => hrest (List.mem_append_left ('\n' :: back) hmem)
        exact absurd hbreaks (not_unbroken hfront)
    | mismatch => cases h
    | failure => cases h

end Form

end TaggedText.Shell
