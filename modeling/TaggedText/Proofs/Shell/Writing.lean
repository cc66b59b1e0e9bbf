/-
# Written forms

How a form may be written down.  Between the parentheses of a call its arguments are separated by
blanks or by a comma, and blanks may stand around the comma, before and behind the opening
parenthesis, and before the closing one.  Nothing else is left open, except that a number may have
leading zeros.

The main statement is that **a written call is read as what was written, and what is behind it is
left alone** (`reading_undoes_writing`).  A call ends with its parenthesis, so any text may follow.
Inside a call a number or a symbol needs an end, and what follows an argument there is always one:
a blank, a comma or a parenthesis (`Closing`).  The induction is on how the form was written.  It
carries the calls that are open, and the state that it comes back to is the one right behind the
form (`resume`).
-/
import TaggedText.Shell.Form.Reader

namespace TaggedText.Shell.Form

/-! ## 1. How forms are written -/

/-- A text of blanks, or of nothing. -/
def Gap (text : List Char) : Prop := ∀ c ∈ text, isGap c = true

instance (text : List Char) : Decidable (Gap text) :=
  decidable_of_iff (text.all isGap = true) List.all_eq_true

/-- What may stand between two arguments. -/
inductive Separates : List Char → Prop where
  | gap (gap : List Char) (hgap : Gap gap) (hne : gap ≠ []) : Separates gap
  | comma (before behind : List Char) (hbefore : Gap before) (hbehind : Gap behind) :
    Separates (before ++ ',' :: behind)

mutual

/-- The ways to write a form. -/
inductive Written : Form → List Char → Prop where
  | number {n : Nat} {digits : List Char} (hne : digits ≠ [])
    (hdigits : ∀ c ∈ digits, c.isDigit = true) (hvalue : Nat.ofDigitChars 10 digits 0 = n)
    (hn : n ≤ largestNumber) : Written (.number n) digits
  | text (content : List Char) (hcontent : textMark ∉ content) :
    Written (.text content) (textMark :: (content ++ [textMark]))
  | symbol (name : List Char) (hne : name ≠ []) (hname : ∀ c ∈ name, isSymbolic c = true) :
    Written (.symbol name) (symbolMark :: name)
  | call (name gap : List Char) {inside : List Char} {arguments : List Form} (hne : name ≠ [])
    (hname : ∀ c ∈ name, c.isAlpha = true) (hgap : Gap gap)
    (harguments : WrittenInside arguments inside) :
    Written (.call name arguments) (name ++ (gap ++ '(' :: (inside ++ [')'])))

/-- The ways to write arguments between two parentheses. -/
inductive WrittenInside : List Form → List Char → Prop where
  | none (gap : List Char) (hgap : Gap gap) : WrittenInside [] gap
  | some (gap : List Char) {text more : List Char} {first : Form} {others : List Form}
    (hgap : Gap gap) (hfirst : Written first text) (hothers : WrittenBehind others more) :
    WrittenInside (first :: others) (gap ++ (text ++ more))

/-- The ways to write further arguments, from right behind one to the closing parenthesis. -/
inductive WrittenBehind : List Form → List Char → Prop where
  | last (gap : List Char) (hgap : Gap gap) : WrittenBehind [] gap
  | next {separator text more : List Char} {f : Form} {others : List Form}
    (hseparator : Separates separator) (hf : Written f text)
    (hothers : WrittenBehind others more) :
    WrittenBehind (f :: others) (separator ++ (text ++ more))

end

/-! ## 2. Characters -/

/-- A character that ends a number or a symbol inside a call. -/
def Ends (c : Char) : Prop := isGap c = true ∨ c = ',' ∨ c = ')'

theorem isGap_cases {c : Char} (h : isGap c = true) : c = ' ' ∨ c = '\t' ∨ c = '\r' ∨ c = '\n' := by
  simpa [isGap, or_assoc] using h

theorem begin?_of_isGap {c : Char} (h : isGap c = true) : begin? c = none := by
  rcases isGap_cases h with rfl | rfl | rfl | rfl <;> decide

theorem Ends.not_isDigit {c : Char} (h : Ends c) : c.isDigit = false := by
  rcases h with h | rfl | rfl
  · rcases isGap_cases h with rfl | rfl | rfl | rfl <;> decide
  · decide
  · decide

theorem Ends.not_isSymbolic {c : Char} (h : Ends c) : isSymbolic c = false := by
  rcases h with h | rfl | rfl
  · rcases isGap_cases h with rfl | rfl | rfl | rfl <;> decide
  · decide
  · decide

theorem not_isAlpha_of_isDigit {c : Char} (h : c.isDigit = true) : c.isAlpha = false := by
  have hbounds : 48 ≤ c.val ∧ c.val ≤ 57 := by simpa [Char.isDigit] using h
  have hupper : c.isUpper = decide (65 ≤ c.val ∧ c.val ≤ 90) := rfl
  have hlower : c.isLower = (decide (97 ≤ c.val) && decide (c.val ≤ 122)) := rfl
  have halpha : c.isAlpha = (c.isUpper || c.isLower) := rfl
  grind

/-- The text begins with a character that ends a number or a symbol. -/
def Closing (text : List Char) : Prop := ∃ c rest, text = c :: rest ∧ Ends c

theorem closing_gap {gap rest : List Char} (hgap : Gap gap) (hrest : Closing rest) :
    Closing (gap ++ rest) := by
  cases gap with
  | nil => exact hrest
  | cons c gap => exact ⟨c, gap ++ rest, rfl, .inl (hgap c List.mem_cons_self)⟩

theorem Separates.closing {separator : List Char} (h : Separates separator) (rest : List Char) :
    Closing (separator ++ rest) := by
  cases h with
  | gap gap hgap hne =>
    obtain ⟨c, gap, rfl⟩ := List.exists_cons_of_ne_nil hne
    exact ⟨c, gap ++ rest, rfl, .inl (hgap c List.mem_cons_self)⟩
  | comma before behind hbefore hbehind =>
    rw [List.append_assoc]
    exact closing_gap hbefore ⟨',', behind ++ rest, rfl, .inr (.inl rfl)⟩

theorem WrittenBehind.closing {forms : List Form} {text : List Char}
    (h : WrittenBehind forms text) (rest : List Char) : Closing (text ++ ')' :: rest) := by
  cases h with
  | last gap hgap => exact closing_gap hgap ⟨')', rest, rfl, .inr (.inr rfl)⟩
  | next hseparator hf hothers =>
    rw [List.append_assoc]
    exact hseparator.closing _

/-! ## 3. Reading pieces -/

/-- A form may begin here. -/
inductive Awaits : Place → Prop where
  | outset : Awaits .outset
  | opened : Awaits .opened
  | separated : Awaits .separated
  | apart : Awaits .apart

/-- A form is complete and read on behind it. -/
def resume (calls : List Opened) (f : Form) (rest : List Char) : Outcome :=
  match calls with
  | [] => .form f rest
  | inner :: outer =>
    State.read ⟨{ inner with arguments := f :: inner.arguments } :: outer, .behind⟩ rest

theorem read_cons {s t : State} {c : Char} (h : s.step c = .next t) (rest : List Char) :
    s.read (c :: rest) = t.read rest := by
  rw [State.read, h]

theorem read_finish {s : State} {c : Char} {calls : List Opened} {f : Form}
    (h : s.step c = finish calls f true) (rest : List Char) :
    s.read (c :: rest) = resume calls f rest := by
  cases calls with
  | nil => rw [State.read, h, finish, resume]
  | cons inner outer => exact read_cons h rest

/-- **A form begins with its first character wherever one may begin.** -/
theorem step_begin {place place' : Place} (hplace : Awaits place) {c : Char}
    (hc : begin? c = some place') (calls : List Opened) :
    State.step ⟨calls, place⟩ c = .next ⟨calls, place'⟩ := by
  have hgap : isGap c = false := by
    refine Bool.eq_false_iff.mpr fun hgap => ?_
    rw [begin?_of_isGap hgap] at hc
    cases hc
  have hclose : c ≠ ')' := by
    rintro rfl
    cases hc
  cases hplace <;> simp [State.step, element, hc, hgap, hclose]

/-- Blanks change nothing where they lead nowhere else. -/
theorem read_gap {s : State} (hs : ∀ c, isGap c = true → s.step c = .next s) {gap : List Char}
    (hgap : Gap gap) (rest : List Char) : s.read (gap ++ rest) = s.read rest := by
  induction gap with
  | nil => rfl
  | cons c gap ih =>
    obtain ⟨hc, hgap⟩ := List.forall_mem_cons.mp hgap
    rw [List.cons_append, read_cons (hs c hc)]
    exact ih hgap

theorem read_gap_apart {gap : List Char} (hgap : Gap gap) (calls : List Opened)
    (rest : List Char) :
    State.read ⟨calls, .apart⟩ (gap ++ rest) = State.read ⟨calls, .apart⟩ rest :=
  read_gap (fun c hc => by simp [State.step, begin?_of_isGap hc, afterForm, hc]) hgap rest

/-- **Blanks behind a form**: what is no beginning is read as right behind the form. -/
theorem read_gap_behind {gap : List Char} (hgap : Gap gap) {c : Char} (hc : begin? c = none)
    (calls : List Opened) (rest : List Char) :
    State.read ⟨calls, .behind⟩ (gap ++ c :: rest) = State.read ⟨calls, .behind⟩ (c :: rest) := by
  cases gap with
  | nil => rfl
  | cons first gap =>
    obtain ⟨hfirst, hgap⟩ := List.forall_mem_cons.mp hgap
    have hstep : State.step ⟨calls, .behind⟩ first = .next ⟨calls, .apart⟩ := by
      simp [State.step, afterForm, hfirst]
    rw [List.cons_append, read_cons hstep, read_gap_apart hgap, State.read, State.read]
    simp only [State.step, hc]

theorem read_close {gap : List Char} (hgap : Gap gap) (inner : Opened) (outer : List Opened)
    (rest : List Char) :
    State.read ⟨inner :: outer, .behind⟩ (gap ++ ')' :: rest) =
      resume outer (.call inner.name inner.arguments.reverse) rest := by
  rw [read_gap_behind hgap rfl]
  exact read_finish rfl rest

/-- **Behind a separator a form may begin.** -/
theorem read_separator {separator : List Char} (h : Separates separator) (calls : List Opened) :
    ∃ place, Awaits place ∧ ∀ rest,
      State.read ⟨calls, .behind⟩ (separator ++ rest) = State.read ⟨calls, place⟩ rest := by
  cases h with
  | gap gap hgap hne =>
    obtain ⟨c, gap, rfl⟩ := List.exists_cons_of_ne_nil hne
    obtain ⟨hc, hgap⟩ := List.forall_mem_cons.mp hgap
    refine ⟨.apart, .apart, fun rest => ?_⟩
    have hstep : State.step ⟨calls, .behind⟩ c = .next ⟨calls, .apart⟩ := by
      simp [State.step, afterForm, hc]
    rw [List.cons_append, read_cons hstep, read_gap_apart hgap]
  | comma before behind hbefore hbehind =>
    refine ⟨.separated, .separated, fun rest => ?_⟩
    have hstep : State.step ⟨calls, .behind⟩ ',' = .next ⟨calls, .separated⟩ := rfl
    rw [List.append_assoc, List.cons_append, read_gap_behind hbefore rfl, read_cons hstep]
    exact read_gap (fun c hc => by simp [State.step, hc]) hbehind rest

/-! ## 4. Reading forms -/

theorem le_ofDigitChars (digits : List Char) (n : Nat) : n ≤ Nat.ofDigitChars 10 digits n := by
  induction digits generalizing n with
  | nil => exact Nat.le_refl n
  | cons c digits ih =>
    rw [Nat.ofDigitChars_cons]
    have := ih (10 * n + (c.toNat - '0'.toNat))
    omega

/-- A number grows by its digits; no part of it is too large if the whole is not. -/
theorem read_digits {digits : List Char} (hdigits : ∀ c ∈ digits, c.isDigit = true) {n : Nat}
    (hn : Nat.ofDigitChars 10 digits n ≤ largestNumber) (calls : List Opened)
    (rest : List Char) :
    State.read ⟨calls, .inNumber n⟩ (digits ++ rest) =
      State.read ⟨calls, .inNumber (Nat.ofDigitChars 10 digits n)⟩ rest := by
  induction digits generalizing n with
  | nil => rfl
  | cons c digits ih =>
    obtain ⟨hc, hdigits⟩ := List.forall_mem_cons.mp hdigits
    rw [Nat.ofDigitChars_cons] at hn ⊢
    have hgrows := le_ofDigitChars digits (10 * n + (c.toNat - '0'.toNat))
    have hsmall : ¬ largestNumber < n := by omega
    have hstep : State.step ⟨calls, .inNumber n⟩ c =
        .next ⟨calls, .inNumber (10 * n + (c.toNat - '0'.toNat))⟩ := by
      simp [State.step, hsmall, hc]
    rw [List.cons_append, read_cons hstep]
    exact ih hdigits hn

/-- The characters of a symbol are kept in reverse. -/
theorem read_symbolic {name : List Char} (hname : ∀ c ∈ name, isSymbolic c = true)
    (calls : List Opened) (seen rest : List Char) :
    State.read ⟨calls, .inSymbol seen⟩ (name ++ rest) =
      State.read ⟨calls, .inSymbol (name.reverse ++ seen)⟩ rest := by
  induction name generalizing seen with
  | nil => rfl
  | cons c name ih =>
    obtain ⟨hc, hname⟩ := List.forall_mem_cons.mp hname
    have hstep : State.step ⟨calls, .inSymbol seen⟩ c = .next ⟨calls, .inSymbol (c :: seen)⟩ := by
      simp [State.step, hc]
    rw [List.cons_append, read_cons hstep, ih hname, List.reverse_cons, List.append_assoc]
    rfl

/-- A text ends with its second mark and holds none. -/
theorem read_content {content : List Char} (hcontent : textMark ∉ content)
    (calls : List Opened) (seen rest : List Char) :
    State.read ⟨calls, .inText seen⟩ (content ++ textMark :: rest) =
      resume calls (.text (seen.reverse ++ content)) rest := by
  induction content generalizing seen with
  | nil =>
    rw [List.append_nil]
    exact read_finish (by simp [State.step]) rest
  | cons c content ih =>
    simp only [List.mem_cons, not_or] at hcontent
    obtain ⟨hc, hcontent⟩ := hcontent
    have hstep : State.step ⟨calls, .inText seen⟩ c = .next ⟨calls, .inText (c :: seen)⟩ := by
      simp [State.step, Ne.symm hc]
    rw [List.cons_append, read_cons hstep, ih hcontent, List.reverse_cons, List.append_assoc]
    rfl

/-- The letters of a name are kept in reverse. -/
theorem read_letters {name : List Char} (hname : ∀ c ∈ name, c.isAlpha = true)
    (calls : List Opened) (seen rest : List Char) :
    State.read ⟨calls, .naming seen⟩ (name ++ rest) =
      State.read ⟨calls, .naming (name.reverse ++ seen)⟩ rest := by
  induction name generalizing seen with
  | nil => rfl
  | cons c name ih =>
    obtain ⟨hc, hname⟩ := List.forall_mem_cons.mp hname
    have hstep : State.step ⟨calls, .naming seen⟩ c = .next ⟨calls, .naming (c :: seen)⟩ := by
      simp [State.step, hc]
    rw [List.cons_append, read_cons hstep, ih hname, List.reverse_cons, List.append_assoc]
    rfl

/-- **A name is followed by its opening parenthesis**, perhaps behind blanks. -/
theorem read_opening {gap : List Char} (hgap : Gap gap) (calls : List Opened)
    (letters rest : List Char) :
    State.read ⟨calls, .naming letters⟩ (gap ++ '(' :: rest) =
      State.read ⟨⟨letters.reverse, []⟩ :: calls, .opened⟩ rest := by
  cases gap with
  | nil => exact read_cons rfl rest
  | cons c gap =>
    obtain ⟨hc, hgap⟩ := List.forall_mem_cons.mp hgap
    have hletter : c.isAlpha = false := by
      rcases isGap_cases hc with rfl | rfl | rfl | rfl <;> rfl
    have hfirst : State.step ⟨calls, .naming letters⟩ c = .next ⟨calls, .named letters⟩ := by
      simp [State.step, hletter, hc]
    have hothers : ∀ c, isGap c = true →
        State.step ⟨calls, .named letters⟩ c = .next ⟨calls, .named letters⟩ := fun c hc => by
      simp [State.step, hc]
    rw [List.cons_append, read_cons hfirst, read_gap hothers hgap]
    exact read_cons rfl rest

/-- **A call is read with its arguments**, wherever a form may begin. -/
theorem read_call {name gap inside : List Char} {arguments : List Form} (hne : name ≠ [])
    (hname : ∀ c ∈ name, c.isAlpha = true) (hgap : Gap gap) {calls : List Opened}
    {rest : List Char}
    (hinside : State.read ⟨⟨name, []⟩ :: calls, .opened⟩ (inside ++ ')' :: rest) =
      resume calls (.call name arguments) rest) {place : Place} (hplace : Awaits place) :
    State.read ⟨calls, place⟩ (name ++ (gap ++ '(' :: (inside ++ [')'])) ++ rest) =
      resume calls (.call name arguments) rest := by
  obtain ⟨c, letters, rfl⟩ := List.exists_cons_of_ne_nil hne
  obtain ⟨hc, hletters⟩ := List.forall_mem_cons.mp hname
  have hbegin : begin? c = some (.naming [c]) := by
    rw [begin?, if_pos hc]
  simp only [List.cons_append, List.append_assoc, List.nil_append]
  rw [read_cons (step_begin hplace hbegin calls), read_letters hletters, read_opening hgap,
    List.reverse_append, List.reverse_reverse]
  exact hinside

section Nested

variable {name : List Char} {seen : List Form} {outer : List Opened} {place : Place}
variable {rest : List Char}

/-- **A number inside a call ends where something closes it.** -/
theorem read_number {n : Nat} {digits : List Char} (hne : digits ≠ [])
    (hdigits : ∀ c ∈ digits, c.isDigit = true) (hvalue : Nat.ofDigitChars 10 digits 0 = n)
    (hn : n ≤ largestNumber) (hplace : Awaits place) (hrest : Closing rest) :
    State.read ⟨⟨name, seen⟩ :: outer, place⟩ (digits ++ rest) =
      resume (⟨name, seen⟩ :: outer) (.number n) rest := by
  obtain ⟨c, digits, rfl⟩ := List.exists_cons_of_ne_nil hne
  obtain ⟨hc, hdigits⟩ := List.forall_mem_cons.mp hdigits
  have hbegin : begin? c = some (.inNumber (c.toNat - '0'.toNat)) := by
    rw [begin?, not_isAlpha_of_isDigit hc, hc]
    rfl
  rw [Nat.ofDigitChars_cons, Nat.mul_zero, Nat.zero_add] at hvalue
  rw [List.cons_append, read_cons (step_begin hplace hbegin _),
    read_digits hdigits (hvalue.symm ▸ hn), hvalue]
  -- what closes the number is read as right behind it
  obtain ⟨d, rest, rfl, hd⟩ := hrest
  rw [resume, State.read, State.read]
  simp only [State.step, Nat.not_lt.mpr hn, hd.not_isDigit, finishBefore]
  rfl

/-- **A symbol inside a call ends where something closes it.** -/
theorem read_symbol {symbol : List Char} (hne : symbol ≠ [])
    (hsymbol : ∀ c ∈ symbol, isSymbolic c = true) (hplace : Awaits place)
    (hrest : Closing rest) :
    State.read ⟨⟨name, seen⟩ :: outer, place⟩ (symbolMark :: symbol ++ rest) =
      resume (⟨name, seen⟩ :: outer) (.symbol symbol) rest := by
  have hbegin : begin? symbolMark = some (.inSymbol []) := rfl
  rw [List.cons_append, read_cons (step_begin hplace hbegin _), read_symbolic hsymbol,
    List.append_nil]
  obtain ⟨d, rest, rfl, hd⟩ := hrest
  have hsome : symbol.reverse.isEmpty = false := by simpa using hne
  rw [resume, State.read, State.read]
  simp only [State.step, hd.not_isSymbolic, hsome, finishBefore, List.reverse_reverse]
  rfl

end Nested

mutual

/-- **A written argument is read as what was written.** -/
theorem Written.reads {f : Form} {text : List Char} : Written f text →
    ∀ {name : List Char} {seen : List Form} {outer : List Opened} {place : Place}
      {rest : List Char}, Awaits place → Closing rest →
    State.read ⟨⟨name, seen⟩ :: outer, place⟩ (text ++ rest) =
      State.read ⟨⟨name, f :: seen⟩ :: outer, .behind⟩ rest
  | .number hne hdigits hvalue hn, _, _, _, _, _, hplace, hrest =>
    read_number hne hdigits hvalue hn hplace hrest
  | .text content hcontent, name, seen, outer, _, rest, hplace, _ => by
    have hbegin : begin? textMark = some (.inText []) := rfl
    rw [List.cons_append, List.append_assoc, read_cons (step_begin hplace hbegin _)]
    exact read_content hcontent (⟨name, seen⟩ :: outer) [] rest
  | .symbol _ hne hname, _, _, _, _, _, hplace, hrest => read_symbol hne hname hplace hrest
  | .call _ _ hne hname hgap harguments, _, _, _, _, _, hplace, _ =>
    read_call hne hname hgap harguments.reads hplace

/-- **Written arguments are read up to the closing parenthesis.** -/
theorem WrittenInside.reads {arguments : List Form} {inside : List Char} :
    WrittenInside arguments inside →
    ∀ {name : List Char} {calls : List Opened} {rest : List Char},
    State.read ⟨⟨name, []⟩ :: calls, .opened⟩ (inside ++ ')' :: rest) =
      resume calls (.call name arguments) rest
  | .none _ hgap, name, calls, rest => by
    rw [read_gap (fun c hc => by simp [State.step, hc]) hgap]
    exact read_finish rfl rest
  | .some _ hgap hfirst hothers, name, calls, rest => by
    rw [List.append_assoc, List.append_assoc,
      read_gap (fun c hc => by simp [State.step, hc]) hgap,
      hfirst.reads .opened (hothers.closing rest)]
    exact hothers.reads

/-- **Further arguments join those that were read.** -/
theorem WrittenBehind.reads {others : List Form} {more : List Char} :
    WrittenBehind others more →
    ∀ {name : List Char} {seen : List Form} {calls : List Opened} {rest : List Char},
    State.read ⟨⟨name, seen⟩ :: calls, .behind⟩ (more ++ ')' :: rest) =
      resume calls (.call name (seen.reverse ++ others)) rest
  | .last _ hgap, name, seen, calls, rest => by
    rw [read_close hgap, List.append_nil]
  | .next hseparator hf hothers, name, seen, calls, rest => by
    obtain ⟨place, hplace, hread⟩ := read_separator hseparator (⟨name, seen⟩ :: calls)
    rw [List.append_assoc, List.append_assoc, hread, hf.reads hplace (hothers.closing rest),
      hothers.reads, List.reverse_cons, List.append_assoc]
    rfl

end

/-- **Reading undoes writing.**  A call that is written down in any way, with any text behind it, is
read as the call, and exactly the text behind it is left. -/
theorem reading_undoes_writing {name : List Char} {arguments : List Form} {text : List Char}
    (h : Written (.call name arguments) text) (rest : List Char) :
    read (text ++ rest) = .form (.call name arguments) rest := by
  cases h with
  | @call _ gap inside _ hne hname hgap harguments =>
    have hread : State.read .initial (name ++ (gap ++ '(' :: (inside ++ [')'])) ++ rest) =
        resume [] (.call name arguments) rest :=
      read_call hne hname hgap harguments.reads .outset
    exact hread

/-- A call in a call, with a comma in a text, leading zeros, all kinds of separators, and a
parenthesis behind it. -/
theorem reading_undoes_writing_nested :
    let inner : Form := .call ['g'] [.number 7, .number 12]
    let arguments : List Form := [.text "a, b".toList, .symbol "x-1".toList, inner, .call ['h'] []]
    let text := "q (\t\"a, b\" ,\n'x-1 g( 007\r12 ),h(  ))".toList
    Written (.call ['q'] arguments) text ∧
      read (text ++ ")".toList) = .form (.call ['q'] arguments) ")".toList := by
  intro inner arguments text
  have hseven : Written (.number 7) ['0', '0', '7'] :=
    .number (by decide) (List.all_eq_true.mp rfl) rfl (by decide)
  have htwelve : Written (.number 12) ['1', '2'] :=
    .number (by decide) (List.all_eq_true.mp rfl) rfl (by decide)
  have hinner : Written inner "g( 007\r12 )".toList :=
    .call ['g'] [] (by decide) (List.all_eq_true.mp rfl) (by decide)
      (.some [' '] (by decide) hseven
        (.next (.gap ['\r'] (by decide) (by decide)) htwelve (.last [' '] (by decide))))
  have hempty : Written (.call ['h'] []) "h(  )".toList :=
    .call ['h'] [] (by decide) (List.all_eq_true.mp rfl) (by decide)
      (.none [' ', ' '] (by decide))
  have hsymbol : Written (.symbol "x-1".toList) "'x-1".toList :=
    .symbol _ (by decide) (List.all_eq_true.mp rfl)
  have hcontent : Written (.text "a, b".toList) "\"a, b\"".toList := .text _ (by decide)
  have hwritten : Written (.call ['q'] arguments) text :=
    .call ['q'] [' '] (by decide) (List.all_eq_true.mp rfl) (by decide)
      (.some ['\t'] (by decide) hcontent
        (.next (.comma [' '] ['\n'] (by decide) (by decide)) hsymbol
          (.next (.gap [' '] (by decide) (by decide)) hinner
            (.next (.comma [] [] (by decide) (by decide)) hempty (.last [] (by decide))))))
  exact ⟨hwritten, reading_undoes_writing hwritten ")".toList⟩

end TaggedText.Shell.Form
