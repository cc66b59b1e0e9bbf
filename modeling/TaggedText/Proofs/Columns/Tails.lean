/-
# Tails of fields

A field is meant to be as long as it can be: a phrase that is not part of another one.  But an
overlapped scan restarts behind the first character of what it has found, and a space between two
words opens a field as well as anything else that is in no word.  So the second word of a phrase
and all behind it is found once more, and so on: **with a field all its tails are found**, what
begins at one of its words and goes on to its end (`exists_whole`, `isTail_of_start`).

A tail is aligned with the field it belongs to, so that it is in the same column.  Hence a column
has fields that are parts of others as soon as one of its fields has two words, and **it has whole
fields only, and none that overlap, exactly if each of its fields is one word**
(`column_has_the_tails_of_its_fields`).
-/
import TaggedText.Proofs.Columns

namespace TaggedText.Pattern

variable {lead run front back more : List Char} {c : Char}

/-! ## 1. Phrases from both ends -/

/-- **What is in no word but in a phrase is a space, and a phrase follows.** -/
theorem Phrase.of_noWord (h : Phrase (lead ++ c :: run)) (hc : inWord c = false) :
    c = ' ' ∧ Phrase run := by
  generalize hl : lead ++ c :: run = l at h
  induction h generalizing lead with
  | word h =>
    have hword := h.inWord c (hl ▸ List.mem_append_right _ List.mem_cons_self)
    rw [hc] at hword
    cases hword
  | @more w rest h hrest ih =>
    rcases List.append_eq_append_iff.mp hl with ⟨inside, rfl, hcons⟩ | ⟨between, rfl, hcons⟩
    · cases inside with
      | nil =>
        obtain ⟨rfl, rfl⟩ := List.cons.inj hcons
        exact ⟨rfl, hrest⟩
      | cons d inside =>
        obtain ⟨rfl, -⟩ := List.cons.inj hcons
        have hword := h.inWord c (List.mem_append_right _ List.mem_cons_self)
        rw [hc] at hword
        cases hword
    · cases between with
      | nil =>
        obtain ⟨rfl, rfl⟩ := List.cons.inj hcons
        exact ⟨rfl, hrest⟩
      | cons d between => exact ih (List.cons.inj hcons).2.symm

theorem Phrase.append {run' : List Char} (h : Phrase run) (h' : Phrase run') :
    Phrase (run ++ ' ' :: run') := by
  induction h with
  | word h => exact .more h h'
  | more h _ ih =>
    rw [List.append_assoc, List.cons_append]
    exact .more h ih

theorem IsWord.reverse {w : List Char} (h : IsWord w) : IsWord w.reverse where
  ne_nil := mt List.reverse_eq_nil_iff.mp h.ne_nil
  inWord c hc := h.inWord c (List.mem_reverse.mp hc)

/-- Read backwards, a phrase is a phrase. -/
theorem Phrase.reverse (h : Phrase run) : Phrase run.reverse := by
  induction h with
  | word h => exact .word h.reverse
  | more h _ ih =>
    rw [List.reverse_append, List.reverse_cons, List.append_assoc]
    exact ih.append (.word h.reverse)

/-- A phrase ends where phrases are closed. -/
theorem Closes.eq_nil (h : Closes (more ++ back)) (hrun : Phrase (run ++ more)) : more = [] := by
  cases more with
  | nil => rfl
  | cons c rest =>
    obtain ⟨rfl, hrest⟩ := hrun.of_noWord (noWord_cons.mp h.noWord)
    exact absurd (h.noMore (rest ++ back) rfl) (hrest.not_noWord back)

/-- No word and no phrase in front of the text runs into what follows. -/
def Begins (front : List Char) : Prop := Closes front.reverse

theorem Begins.opens (h : Begins front) : Opens front := by
  intro c hc
  exact h.noWord c (List.head?_reverse ▸ hc)

/-- **A phrase is the end of one that begins as early as it can.** -/
theorem exists_begin (hfront : Opens front) (hrun : Phrase run) :
    ∃ before lead, front = before ++ lead ∧ Begins before ∧ Phrase (lead ++ run) ∧
      ∀ c ∈ lead.getLast?, c = ' ' := by
  -- backwards, this is the longest phrase that the text begins with
  obtain ⟨long, rest, hsplit, hlong, hrest⟩ := exists_phrase (hrun.reverse.not_noWord front.reverse)
  obtain ⟨lead, rfl, hfrontSplit⟩ : ∃ lead, long = run.reverse ++ lead ∧
      front.reverse = lead ++ rest := by
    rcases List.append_eq_append_iff.mp hsplit with hlonger | ⟨lead, hrunSplit, rfl⟩
    · exact hlonger
    · cases hrest.eq_nil (hrunSplit ▸ hrun.reverse)
      exact ⟨[], by rw [List.append_nil] at hrunSplit ⊢; exact hrunSplit.symm, rfl⟩
  have hfrontEq : front = rest.reverse ++ lead.reverse := by
    rw [← List.reverse_append, ← hfrontSplit, List.reverse_reverse]
  have hphrase : Phrase (lead.reverse ++ run) := by
    have hback := hlong.reverse
    rwa [List.reverse_append, List.reverse_reverse] at hback
  refine ⟨rest.reverse, lead.reverse, hfrontEq, ?_, hphrase, fun c hc => ?_⟩
  · rw [Begins, List.reverse_reverse]
    exact hrest
  · obtain ⟨inside, hlead⟩ := List.getLast?_eq_some_iff.mp (Option.mem_def.mp hc)
    have hnoWord : inWord c = false := hfront c (by simp [hfrontEq, hlead])
    rw [hlead, List.append_assoc] at hphrase
    exact (hphrase.of_noWord hnoWord).1

end TaggedText.Pattern

namespace TaggedText.Columns

open Pattern (fields lines IsWord Phrase Opens Closes Begins inWord spanOf)

variable {text : List Char} {a b a' b' : Span}

/-! ## 2. Whole fields and their tails -/

/-- The span of words of a text with single spaces between them. -/
def IsRun (text : List Char) (a : Span) : Prop :=
  ∃ front run back, text = front ++ (run ++ back) ∧ Phrase run ∧ a = spanOf front run

/-- A whole field is a run that is not a part of another one. -/
def IsWhole (text : List Char) (a : Span) : Prop :=
  IsRun text a ∧ ∀ b, IsRun text b → a.within b = true → b = a

/-- The run is one word, with no space in it. -/
def IsOneWord (text : List Char) (a : Span) : Prop :=
  ∃ front w back, text = front ++ (w ++ back) ∧ IsWord w ∧ a = spanOf front w

/-- The first run begins at a word of the second, and goes on to its end. -/
def IsTail (text : List Char) (a b : Span) : Prop :=
  ∃ front lead run back, text = front ++ (lead ++ (run ++ back)) ∧ Phrase (lead ++ run) ∧
    Phrase run ∧ (∀ c ∈ lead.getLast?, c = ' ') ∧
    b = spanOf front (lead ++ run) ∧ a = spanOf (front ++ lead) run

theorem IsTail.within (h : IsTail text a b) : a.within b = true := by
  obtain ⟨front, lead, run, back, -, -, -, -, rfl, rfl⟩ := h
  rw [Span.within_iff]
  simp only [spanOf, Text.width_append]
  omega

/-- **A run is whole if nothing in front of it or behind it runs into it.** -/
theorem isWhole_of_begins {front run back : List Char} (htext : text = front ++ (run ++ back))
    (hfront : Begins front) (hrun : Phrase run) (hback : Closes back) :
    IsWhole text (spanOf front run) := by
  refine ⟨⟨front, run, back, htext, hrun, rfl⟩, ?_⟩
  rintro _ ⟨front', run', back', htext', hrun', rfl⟩ hwithin
  obtain ⟨hstart, hstop⟩ := Span.within_iff.mp hwithin
  simp only [spanOf] at hstart hstop
  obtain ⟨lead, rfl, hrest⟩ :=
    Text.exists_eq_append_of_width_le (htext'.symm.trans htext) hstart
  rw [← List.append_assoc] at hrest
  obtain ⟨more, rfl, rfl⟩ := Text.exists_eq_append_of_width_le hrest.symm (by
    rw [Text.width_append] at hstop ⊢
    omega)
  cases hback.eq_nil hrun'
  have hlead : lead.reverse = [] := by
    rw [Begins, List.reverse_append] at hfront
    have hbackwards : Phrase (run.reverse ++ lead.reverse) := by
      rw [← List.reverse_append, ← List.append_nil (lead ++ run)]
      exact hrun'.reverse
    exact hfront.eq_nil hbackwards
  cases List.reverse_eq_nil_iff.mp hlead
  simp

/-- **Every field is a tail of a whole field.** -/
theorem exists_whole (h : a ∈ fields text) :
    ∃ b ∈ fields text, IsWhole text b ∧ IsTail text a b := by
  obtain ⟨front, run, back, htext, hfront, hrun, hback, rfl⟩ := Pattern.mem_fields.mp h
  obtain ⟨before, lead, rfl, hbefore, hphrase, hlead⟩ := Pattern.exists_begin hfront hrun
  have htext' : text = before ++ ((lead ++ run) ++ back) := by
    rw [htext]
    simp only [List.append_assoc]
  refine ⟨spanOf before (lead ++ run), ?_, isWhole_of_begins htext' hbefore hphrase hback, ?_⟩
  · exact Pattern.mem_fields.mpr
      ⟨before, lead ++ run, back, htext', hbefore.opens, hphrase, hback, rfl⟩
  · rw [List.append_assoc] at htext'
    exact ⟨before, lead, run, back, htext', hphrase, hrun, hlead, rfl, rfl⟩

/-- **The tails of a field are found**, too. -/
theorem IsTail.mem_fields (h : IsTail text a b) (hb : b ∈ fields text) : a ∈ fields text := by
  obtain ⟨front, lead, run, back, htext, hphrase, hrun, hlead, hspan, rfl⟩ := h
  obtain ⟨front', run', back', htext', hfront, -, hback, hspan'⟩ := Pattern.mem_fields.mp hb
  have hsplit : front ++ ((lead ++ run) ++ back) = front' ++ (run' ++ back') := by
    rw [← htext', htext, List.append_assoc]
  obtain ⟨rfl, -, rfl⟩ := Pattern.spanOf_inj hsplit (hspan.symm.trans hspan')
  refine Pattern.mem_fields.mpr
    ⟨front ++ lead, run, back, by rw [htext, List.append_assoc], ?_, hrun, hback, rfl⟩
  intro c hc
  rcases List.eq_nil_or_concat lead with rfl | ⟨inside, d, rfl⟩
  · rw [List.append_nil] at hc
    exact hfront c hc
  · have hd : d = ' ' := hlead d (by simp)
    have hdc : d = c := by simpa using hc
    rw [← hdc, hd]
    rfl

/-- Two fields do not start at the same position. -/
theorem eq_of_start_eq (ha : a ∈ fields text) (hb : b ∈ fields text) (h : a.start = b.start) :
    a = b := by
  have hapart : (fields text).Pairwise fun a b => ¬ a.start = b.start :=
    (Pattern.pairwise_fields text).imp Nat.ne_of_lt
  exact Span.eq_of_pairwise_not (fun _ _ => Eq.symm) hapart ha hb h

/-- **A field that starts in another one is a tail of it.** -/
theorem isTail_of_start (ha : a ∈ fields text) (hb : b ∈ fields text) (hstart : b.start ≤ a.start)
    (hstop : a.start < b.stop) : IsTail text a b := by
  obtain ⟨front', run', back', htext', hfront', -, -, hspan⟩ := Pattern.mem_fields.mp ha
  obtain ⟨front, long, back, htext, -, hlong, hback, rfl⟩ := Pattern.mem_fields.mp hb
  rw [hspan] at hstart hstop
  simp only [spanOf] at hstart hstop
  obtain ⟨lead, rfl, hrest⟩ :=
    Text.exists_eq_append_of_width_le (htext.symm.trans htext') hstart
  obtain ⟨run, rfl, -⟩ := Text.exists_eq_append_of_width_le hrest.symm (by
    rw [Text.width_append] at hstop
    omega)
  have hrun : Phrase run ∧ ∀ c ∈ lead.getLast?, c = ' ' := by
    rcases List.eq_nil_or_concat lead with rfl | ⟨inside, c, rfl⟩
    · exact ⟨hlong, fun c hc => by cases hc⟩
    · have hc : inWord c = false := hfront' c (by simp)
      rw [List.concat_append] at hlong
      obtain ⟨hspace, hphrase⟩ := hlong.of_noWord hc
      refine ⟨hphrase, fun d hd => ?_⟩
      have hcd : c = d := by simpa using hd
      exact hcd ▸ hspace
  have htail : IsTail text (spanOf (front ++ lead) run) (spanOf front (lead ++ run)) :=
    ⟨front, lead, run, back, by rw [htext, List.append_assoc], hlong, hrun.1, hrun.2, rfl, rfl⟩
  -- the field that starts there is this tail
  rwa [eq_of_start_eq ha (htail.mem_fields hb) (by rw [hspan]; rfl)]

/-- **Two whole fields have no position in common.** -/
theorem eq_or_disjoint (ha : a ∈ fields text) (hb : b ∈ fields text) (hwa : IsWhole text a)
    (hwb : IsWhole text b) : a = b ∨ a.intersects b = false := by
  by_contra hneither
  obtain ⟨hne, hmeet⟩ := not_or.mp hneither
  have hapos := (field_spec ha).1
  have hbpos := (field_spec hb).1
  rw [Bool.not_eq_false, Span.intersects_iff] at hmeet
  rcases Nat.le_total a.start b.start with hle | hle
  · have htail := isTail_of_start hb ha hle (by omega)
    exact hne (hwb.2 a hwa.1 htail.within)
  · have htail := isTail_of_start ha hb hle (by omega)
    exact hne (hwa.2 b hwb.1 htail.within).symm

/-! ## 3. Tails in columns -/

/-- Every field lies in a line. -/
theorem exists_inLine (h : a ∈ fields text) : ∃ a', InLine text a a' := by
  obtain ⟨front, run, back, htext, -, hrun, -, rfl⟩ := Pattern.mem_fields.mp h
  have hunbroken : Pattern.Unbroken run := by
    intro c hc
    rcases hrun.inWord_or_space c hc with hword | rfl
    · rw [inWord, Bool.and_eq_true, Bool.and_eq_true, bne_iff_ne, bne_iff_ne] at hword
      simp [Pattern.isBreak, hword.1.1, hword.1.2]
    · rfl
  obtain ⟨r, hr, hwithin⟩ := Pattern.exists_line htext hrun.ne_nil hunbroken
  obtain ⟨a', ha', -⟩ := Document.exists_relativeTo hwithin
  exact ⟨a', h, r, hr, hwithin, ha'⟩

/-- **A field is aligned with one that it is a part of.** -/
theorem aligned_of_within (ha : a ∈ fields text) (hb : b ∈ fields text)
    (hwithin : a.within b = true) : Aligned text a b := by
  obtain ⟨b', r, hr, hbr, hb'⟩ : ∃ b', ∃ r ∈ lines text, b.within r = true ∧
      Document.relativeTo b r = some b' := by
    obtain ⟨b', h⟩ := exists_inLine hb
    exact ⟨b', h.line⟩
  have har : a.within r = true := by
    rw [Span.within_iff] at hwithin hbr ⊢
    omega
  obtain ⟨a', ha', hoffset, hbounds⟩ := Document.exists_relativeTo har
  obtain ⟨b'', hb'', hoffset', hbounds'⟩ := Document.exists_relativeTo hbr
  cases hb'.symm.trans hb''
  refine ⟨a', b', ⟨ha, r, hr, har, ha'⟩, ⟨hb, r, hr, hbr, hb'⟩, ?_⟩
  -- both are counted from the same line
  have hpositive := (field_spec ha).1
  rw [Span.within_iff] at hwithin
  simp only [Span.bounds, Prod.mk.injEq] at hbounds hbounds'
  rw [Span.intersects_iff]
  omega

theorem aligned_symm (h : Aligned text a b) : Aligned text b a := by
  obtain ⟨a', b', ha, hb, hmeets⟩ := h
  exact ⟨b', a', hb, ha, Span.intersects_symm hmeets⟩

variable {column : Set Span}

/-- A column has all that is aligned with its fields. -/
theorem mem_of_aligned (h : column ∈ columnSets text) (ha : a ∈ column) (hab : Aligned text a b) :
    b ∈ column := by
  obtain ⟨first, first', -, rfl⟩ := h
  exact Relation.ReflTransGen.tail ha hab

theorem field_of_mem (h : column ∈ columnSets text) (ha : a ∈ column) : a ∈ fields text := by
  obtain ⟨first, first', hfirst, rfl⟩ := h
  rcases Relation.ReflTransGen.cases_tail ha with rfl | ⟨b, -, b', a', -, hfield, -⟩
  · exact hfirst.field
  · exact hfield.field

/-- **A column consists of the tails of its whole fields.** -/
theorem mem_column_iff (h : column ∈ columnSets text) :
    a ∈ column ↔ ∃ b ∈ column, IsWhole text b ∧ IsTail text a b := by
  constructor
  · intro ha
    have hfield := field_of_mem h ha
    obtain ⟨b, hb, hwhole, htail⟩ := exists_whole hfield
    exact ⟨b, mem_of_aligned h ha (aligned_of_within hfield hb htail.within), hwhole, htail⟩
  · rintro ⟨b, hb, -, htail⟩
    have hfield := field_of_mem h hb
    exact mem_of_aligned h hb
      (aligned_symm (aligned_of_within (htail.mem_fields hfield) hfield htail.within))

/-- A field of several words has a tail that is not all of it. -/
theorem exists_tail_of_not_oneWord (h : a ∈ fields text) (hmany : ¬ IsOneWord text a) :
    ∃ b, IsTail text b a ∧ b ≠ a := by
  obtain ⟨front, run, back, htext, -, hrun, -, rfl⟩ := Pattern.mem_fields.mp h
  cases hrun with
  | word hw => exact absurd ⟨front, run, back, htext, hw, rfl⟩ hmany
  | @more w rest hw hrest =>
    refine ⟨spanOf (front ++ (w ++ [' '])) rest,
      ⟨front, w ++ [' '], rest, back, ?_, ?_, hrest, ?_, ?_, rfl⟩, ?_⟩
    · rw [htext]
      simp
    · rw [List.append_assoc]
      exact .more hw hrest
    · simp
    · simp
    · intro heq
      have hstart := congrArg Span.start heq
      simp only [spanOf, Text.width_append, Text.width_cons, Text.width_nil] at hstart
      have hspace := Char.utf8Size_pos ' '
      omega

/-- A field of one word has no other tail. -/
theorem IsOneWord.eq_of_isTail (h : IsOneWord text b) (htail : IsTail text a b) : a = b := by
  obtain ⟨front, w, back, htext, hw, rfl⟩ := h
  obtain ⟨front', lead, run, back', htext', -, -, hlead, hspan, rfl⟩ := htail
  have hsplit : front ++ (w ++ back) = front' ++ ((lead ++ run) ++ back') := by
    rw [← htext, htext', List.append_assoc]
  obtain ⟨rfl, rfl, rfl⟩ := Pattern.spanOf_inj hsplit hspan
  rcases List.eq_nil_or_concat lead with rfl | ⟨inside, c, rfl⟩
  · simp
  · have hc : c = ' ' := hlead c (by simp)
    have hword := hw.inWord c (by simp)
    rw [hc] at hword
    cases hword

/-- **A column has all tails of its whole fields, and so it has whole fields only exactly if each
of its fields is one word.**  What is found as the column of a text are the tails of the whole
fields in it; no two whole fields in it have a position in common.  So all its fields are whole,
and no two of them have a position in common, if and only if there is no space in any of them. -/
theorem column_has_the_tails_of_its_fields {d : Document} {needle : String} {column : List Span}
    (h : d.columnContaining needle = .ok column) :
    (∀ a, a ∈ column ↔ ∃ b ∈ column, IsWhole d.text b ∧ IsTail d.text a b) ∧
    (∀ a ∈ column, ∀ b ∈ column, IsWhole d.text a → IsWhole d.text b →
      a = b ∨ a.intersects b = false) ∧
    (((∀ a ∈ column, IsWhole d.text a) ∧ column.Pairwise fun a b => a.intersects b = false) ↔
      ∀ a ∈ column, IsOneWord d.text a) := by
  obtain ⟨hcolumn, -, hnodup, -⟩ :=
    foundColumns_spec (foundColumns_of_ok h ▸ List.mem_singleton_self column)
  have hfield : ∀ a ∈ column, a ∈ fields d.text := fun a ha => field_of_mem hcolumn ha
  have hmem : ∀ a, a ∈ column ↔ ∃ b ∈ column, IsWhole d.text b ∧ IsTail d.text a b :=
    fun a => mem_column_iff hcolumn
  have hdisjoint : ∀ a ∈ column, ∀ b ∈ column, IsWhole d.text a → IsWhole d.text b →
      a = b ∨ a.intersects b = false := fun a ha b hb => eq_or_disjoint (hfield a ha) (hfield b hb)
  refine ⟨hmem, hdisjoint, ?_, ?_⟩
  · rintro ⟨hwhole, -⟩ a ha
    by_contra hmany
    obtain ⟨b, htail, hne⟩ := exists_tail_of_not_oneWord (hfield a ha) hmany
    have hb := hwhole b ((hmem b).mpr ⟨a, ha, hwhole a ha, htail⟩)
    exact hne (hb.2 a (hwhole a ha).1 htail.within).symm
  · intro hone
    have hwhole : ∀ a ∈ column, IsWhole d.text a := by
      intro a ha
      obtain ⟨b, hb, hwhole, htail⟩ := (hmem a).mp ha
      rw [(hone b hb).eq_of_isTail htail]
      exact hwhole
    refine ⟨hwhole, hnodup.imp_of_mem fun ha hb hne => ?_⟩
    exact (hdisjoint _ ha _ hb (hwhole _ ha) (hwhole _ hb)).resolve_left hne

/-- Fields of one word each: they are whole, and apart. -/
theorem column_has_the_tails_of_its_fields_words :
    let d := Document.ofString "item  count\npear  3" false
    let counts : List Span := [⟨6, 11, 0, by decide⟩, ⟨18, 19, 0, by decide⟩]
    d.columnContaining "3" = .ok counts ∧ (∀ a ∈ counts, IsOneWord d.text a) ∧
      (∀ a ∈ counts, IsWhole d.text a) ∧ counts.Pairwise fun a b => a.intersects b = false := by
  intro d counts
  have hcounts : d.columnContaining "3" = .ok counts := by unfold d; cbv
  have hone : ∀ a ∈ counts, IsOneWord d.text a := by
    have hcount : IsWord "count".toList := ⟨List.cons_ne_nil _ _, List.all_eq_true.mp rfl⟩
    have hthree : IsWord "3".toList := ⟨List.cons_ne_nil _ _, List.all_eq_true.mp rfl⟩
    intro a ha
    rcases List.mem_pair.mp ha with rfl | rfl
    · exact ⟨"item  ".toList, _, "\npear  3".toList, by unfold d; rfl, hcount, rfl⟩
    · exact ⟨"item  count\npear  ".toList, _, [], by unfold d; rfl, hthree, rfl⟩
  exact ⟨hcounts, hone, (column_has_the_tails_of_its_fields hcounts).2.2.mpr hone⟩

/-- **The second word of a field is in the column once more.**  It is neither a whole field nor
apart from the field that it belongs to. -/
theorem column_has_a_part_of_a_field :
    let d := Document.ofString "a b\n1" false
    let column : List Span := [⟨0, 3, 0, by decide⟩, ⟨2, 3, 0, by decide⟩, ⟨4, 5, 0, by decide⟩]
    d.columnContaining "1" = .ok column ∧ ¬ (∀ a ∈ column, IsWhole d.text a) ∧
      ¬ column.Pairwise fun a b => a.intersects b = false := by
  intro d column
  refine ⟨by unfold d; cbv, fun hwhole => ?_, by decide⟩
  have hrun : IsRun d.text ⟨0, 3, 0, by decide⟩ := by
    have hword (c : Char) (hc : inWord c = true) : IsWord [c] :=
      ⟨List.cons_ne_nil c [], fun x hx => List.mem_singleton.mp hx ▸ hc⟩
    exact ⟨[], "a b".toList, "\n1".toList, by unfold d; rfl,
      .more (hword 'a' rfl) (.word (hword 'b' rfl)), rfl⟩
  have hpart := hwhole ⟨2, 3, 0, by decide⟩ (by decide)
  exact absurd (hpart.2 _ hrun (by decide)) (by decide)

end TaggedText.Columns
