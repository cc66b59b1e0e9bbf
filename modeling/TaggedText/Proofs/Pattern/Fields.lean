/-
# Fields

A field is a run of words with single spaces between them, a phrase.  The pattern for fields asks
for the beginning of the text or a character that is in no word, and takes the longest phrase from
there on.  Section 2 follows its matcher, round by round, along the words of a phrase.

An overlapped scan tries every place, and a space between two words of a phrase is a character that
is in no word.  So the scan finds a span for every place behind which a phrase can begin, and not
for the first word of a phrase only: **what it finds are the phrases that no word goes on behind,
and that no word runs into from the front** (`mem_fields`).
-/
import TaggedText.Pattern.Reader
import TaggedText.Pattern.Standard
import TaggedText.Proofs.Pattern.Ways
import Mathlib.Data.List.TakeWhile

namespace TaggedText.Pattern

/-! ## 1. Words and phrases -/

/-- The character can be in a word: it is no space and ends neither a line nor a page. -/
def inWord (c : Char) : Bool := c != '\n' && c != '\x0c' && c != ' '

/-- The characters of one word, perhaps not all of them. -/
structure IsWord (w : List Char) : Prop where
  ne_nil : w ≠ []
  inWord : ∀ c ∈ w, inWord c = true

/-- Words with single spaces between them. -/
inductive Phrase : List Char → Prop where
  | word {w : List Char} : IsWord w → Phrase w
  | more {w rest : List Char} : IsWord w → Phrase rest → Phrase (w ++ ' ' :: rest)

/-- The text does not begin with a word. -/
def NoWord (back : List Char) : Prop := ∀ c ∈ back.head?, inWord c = false

/-- A phrase in front of the text ends there: neither its last word nor the phrase goes on. -/
structure Closes (back : List Char) : Prop where
  noWord : NoWord back
  noMore : ∀ rest, back = ' ' :: rest → NoWord rest

/-- A word can begin behind the text. -/
def Opens (front : List Char) : Prop := ∀ c ∈ front.getLast?, inWord c = false

variable {w run front back rest : List Char} {s : Progress}

theorem noWord_nil : NoWord [] := fun _ hc => by cases hc

theorem noWord_cons {c : Char} : NoWord (c :: back) ↔ inWord c = false := by
  simp [NoWord]

theorem exists_of_not_noWord (h : ¬ NoWord back) :
    ∃ c rest, back = c :: rest ∧ inWord c = true := by
  cases back with
  | nil => exact absurd noWord_nil h
  | cons c rest => exact ⟨c, rest, rfl, by rw [noWord_cons] at h; simpa using h⟩

theorem IsWord.not_noWord (h : IsWord w) (back : List Char) : ¬ NoWord (w ++ back) := by
  obtain ⟨c, rest, rfl⟩ := List.exists_cons_of_ne_nil h.ne_nil
  rw [List.cons_append, noWord_cons, h.inWord c List.mem_cons_self]
  exact Bool.noConfusion

theorem Phrase.not_noWord (h : Phrase run) (back : List Char) : ¬ NoWord (run ++ back) := by
  cases h with
  | word h => exact h.not_noWord back
  | more h _ =>
    rw [List.append_assoc]
    exact h.not_noWord _

theorem Phrase.ne_nil (h : Phrase run) : run ≠ [] := by
  rintro rfl
  exact h.not_noWord [] noWord_nil

/-- There are characters of words and spaces in a phrase. -/
theorem Phrase.inWord_or_space (h : Phrase run) : ∀ c ∈ run, inWord c = true ∨ c = ' ' := by
  induction h with
  | word h => exact fun c hc => .inl (h.inWord c hc)
  | more h _ ih =>
    intro c hc
    rcases List.mem_append.mp hc with hc | hc
    · exact .inl (h.inWord c hc)
    · rcases List.mem_cons.mp hc with rfl | hc
      · exact .inr rfl
      · exact ih c hc

/-- A text that begins with a word begins with all of it. -/
theorem exists_word (h : ¬ NoWord back) : ∃ w rest, back = w ++ rest ∧ IsWord w ∧ NoWord rest := by
  obtain ⟨c, rest, rfl, hc⟩ := exists_of_not_noWord h
  refine ⟨(c :: rest).takeWhile inWord, (c :: rest).dropWhile inWord,
    (List.takeWhile_append_dropWhile).symm, ⟨?_, fun d hd => List.mem_takeWhile_imp hd⟩, ?_⟩
  · rw [List.takeWhile_cons_of_pos hc]
    exact List.cons_ne_nil _ _
  · intro d hd
    have hnot := List.head?_dropWhile_not inWord (c :: rest)
    rw [Option.mem_def.mp hd] at hnot
    exact hnot

/-- **A text that begins with a word begins with a longest phrase.** -/
theorem exists_phrase (h : ¬ NoWord back) :
    ∃ run rest, back = run ++ rest ∧ Phrase run ∧ Closes rest := by
  induction hn : back.length using Nat.strong_induction_on generalizing back with
  | _ n ih =>
    obtain ⟨w, rest, rfl, hw, hrest⟩ := exists_word h
    by_cases hmore : ∃ tail, rest = ' ' :: tail ∧ ¬ NoWord tail
    · obtain ⟨tail, rfl, htail⟩ := hmore
      have hshorter : tail.length < n := by
        rw [← hn, List.length_append, List.length_cons]
        omega
      obtain ⟨run, rest, rfl, hrun, hclosed⟩ := ih tail.length hshorter htail rfl
      exact ⟨w ++ ' ' :: run, rest, by simp, .more hw hrun, hclosed⟩
    · refine ⟨w, rest, rfl, .word hw, hrest, fun tail htail => ?_⟩
      by_contra hword
      exact hmore ⟨tail, htail, hword⟩

/-! ## 2. Matching a phrase -/

/-- The characters of words, as the pattern has them. -/
def wordSet : CharSet :=
  .complement (.union (.union (.union .none (.single '\n')) (.single '\x0c')) (.single ' '))

/-- The pattern for fields, with the opening as group 1 and the phrase as group 2. -/
def fieldPattern : Pattern :=
  .seq
    (.group 1 (.choice (.one (.single '\n')) (.choice (.anchor .textStart)
      (.choice (.anchor .textEnd) (.choice (.one (.single '\x0c')) (.one (.single ' ')))))))
    (.group 2 (.seq
      (.rounds true 0 none (.group 3 (.seq (.rounds true 1 none (.one wordSet))
        (.one (.single ' ')))))
      (.rounds true 1 none (.one wordSet))))

theorem read?_field : Pattern.read? Standard.field.toList = some fieldPattern := rfl

/-- As much of a word as there is. -/
def wordMatcher : Matcher := .loop true (.one wordSet)

/-- A word and a space. -/
def roundMatcher : Matcher := .group 3 (.seq wordMatcher (.one (.single ' ')))

/-- A phrase. -/
def phraseMatcher : Matcher := .seq (.choice (.loop true roundMatcher) .empty) wordMatcher

/-- What stands in front of a field. -/
def openingMatcher : Matcher :=
  .choice (.one (.single '\n')) (.choice (.anchor .textStart) (.choice (.anchor .textEnd)
    (.choice (.one (.single '\x0c')) (.one (.single ' ')))))

theorem matcher_fieldPattern : fieldPattern.matcher =
    .seq (.group 1 openingMatcher) (.group 2 phraseMatcher) := rfl

theorem contains_wordSet (c : Char) : wordSet.contains c = inWord c := by
  simp only [wordSet, CharSet.contains, CharSet.contains_single, inWord, bne, Bool.false_or,
    Bool.not_or, BEq.comm (a := c)]

theorem ways_word (hs : s.place = .between front (w ++ back)) (hw : IsWord w)
    (hback : NoWord back) :
    ∃ others, wordMatcher.ways s =
        { s with place := .between (front ++ w) back, passed := [] } :: others ∧
      ∀ t ∈ others, ∃ passed c rest, inWord c = true ∧ t.place = .between passed (c :: rest) := by
  simp only [← contains_wordSet]
  exact ways_loop_one hs hw.ne_nil (fun c hc => by rw [contains_wordSet, hw.inWord c hc])
    fun c hc => by rw [contains_wordSet, hback c hc]

theorem ways_word_eq_nil (hs : s.place = .between front back) (hback : NoWord back) :
    wordMatcher.ways s = [] :=
  ways_loop_one_eq_nil hs fun c hc => by rw [contains_wordSet, hback c hc]

/-- There is no way through a space in front of something else. -/
theorem ways_space_eq_nil (hs : s.place = .between front back)
    (hback : ∀ rest, back ≠ ' ' :: rest) : (Matcher.one (.single ' ')).ways s = [] := by
  refine ways_one_eq_nil hs fun c hc => ?_
  obtain ⟨rest, rfl⟩ := List.head?_eq_some_iff.mp (Option.mem_def.mp hc)
  rw [CharSet.contains_single, beq_eq_false_iff_ne]
  rintro rfl
  exact hback rest rfl

/-- Not all of a word taken, there is no space. -/
theorem ways_space_of_inWord {others : List Progress} (hothers : ∀ t ∈ others, ∃ passed c rest,
    inWord c = true ∧ t.place = .between passed (c :: rest)) :
    others.flatMap (Matcher.one (.single ' ')).ways = [] := by
  refine List.flatMap_eq_nil_iff.mpr fun t ht => ?_
  obtain ⟨passed, c, rest, hc, ht⟩ := hothers t ht
  refine ways_space_eq_nil ht ?_
  rintro _ ⟨⟩
  exact Bool.noConfusion hc

/-- **One round takes a word and the space behind it.** -/
theorem ways_round (hs : s.place = .between front (w ++ ' ' :: rest)) (hw : IsWord w) :
    ∃ t, roundMatcher.ways s = [t] ∧ t.place = .between (front ++ (w ++ [' '])) rest := by
  obtain ⟨others, hways, hothers⟩ := ways_word hs hw (noWord_cons.mpr rfl)
  rw [roundMatcher, Matcher.ways_group, Matcher.ways_seq, hways, List.flatMap_cons,
    ways_space_of_inWord hothers, ways_one rfl, if_pos (by simp)]
  exact ⟨_, rfl, by simp⟩

/-- There is no round without a space behind the word. -/
theorem ways_round_of_word (hs : s.place = .between front (w ++ back)) (hw : IsWord w)
    (hback : NoWord back) (hspace : ∀ rest, back ≠ ' ' :: rest) : roundMatcher.ways s = [] := by
  obtain ⟨others, hways, hothers⟩ := ways_word hs hw hback
  rw [roundMatcher, Matcher.ways_group, Matcher.ways_seq, hways, List.flatMap_cons,
    ways_space_of_inWord hothers, ways_space_eq_nil rfl hspace]
  rfl

/-- There is no round without a word. -/
theorem ways_round_of_noWord (hs : s.place = .between front back) (hback : NoWord back) :
    roundMatcher.ways s = [] := by
  rw [roundMatcher, Matcher.ways_group, Matcher.ways_seq, ways_word_eq_nil hs hback]
  rfl

/-- **Rounds and a last word lead behind a phrase**: the rounds take all words but the last one, or
this one too if there is a space behind it, and then they have to give it back. -/
theorem first_of_rounds (hrun : Phrase run) (hback : Closes back) {fuel : Nat}
    (hs : s.place = .between front (run ++ back)) (hfuel : run.length ≤ fuel) :
    ∃ t, ((roundWays true roundMatcher.ways fuel s ++ [s]).flatMap wordMatcher.ways).head? =
      some t ∧ t.place = .between (front ++ run) back := by
  induction hrun generalizing s front fuel with
  | @word w hw =>
    obtain ⟨others, hways, -⟩ := ways_word hs hw hback.noWord
    rw [List.flatMap_append, List.flatMap_singleton, hways]
    suffices hnone : (roundWays true roundMatcher.ways fuel s).flatMap wordMatcher.ways = [] by
      rw [hnone]
      exact ⟨_, rfl, rfl⟩
    by_cases hspace : ∃ rest, back = ' ' :: rest
    · obtain ⟨rest, rfl⟩ := hspace
      obtain ⟨t, hround, ht⟩ := ways_round hs hw
      have hrest := hback.noMore rest rfl
      cases fuel with
      | zero => rfl
      | succ fuel =>
        rw [roundWays_of_ways_eq_singleton hround (by simp [hs, ht, Place.between]; omega),
          roundWays_of_ways_eq_nil (ways_round_of_noWord ht hrest), List.nil_append,
          List.flatMap_singleton, ways_word_eq_nil ht hrest]
    · rw [roundWays_of_ways_eq_nil
        (ways_round_of_word hs hw hback.noWord fun rest hrest => hspace ⟨rest, hrest⟩)]
      rfl
  | @more w rest hw _ ih =>
    rw [List.append_assoc, List.cons_append] at hs
    obtain ⟨t, hround, ht⟩ := ways_round hs hw
    cases fuel with
    | zero => simp at hfuel
    | succ fuel =>
      have hrest : rest.length ≤ fuel := by
        rw [List.length_append, List.length_cons] at hfuel
        omega
      obtain ⟨last, hlast, hplace⟩ := ih ht hrest
      refine ⟨last, ?_, by rw [hplace]; simp⟩
      rw [roundWays_of_ways_eq_singleton hround (by simp [hs, ht, Place.between]; omega),
        List.flatMap_append, List.head?_append, hlast]
      rfl

/-- **The first way through a phrase takes all of it.** -/
theorem first_of_ways_phrase (hrun : Phrase run) (hback : Closes back)
    (hs : s.place = .between front (run ++ back)) :
    ∃ t, (phraseMatcher.ways s).head? = some t ∧ t.place = .between (front ++ run) back :=
  first_of_rounds hrun hback hs (by simp [hs, Place.between]; omega)

theorem ways_phrase_eq_nil (hs : s.place = .between front back) (hback : NoWord back) :
    phraseMatcher.ways s = [] := by
  show (roundWays true roundMatcher.ways _ s ++ [s]).flatMap wordMatcher.ways = []
  rw [roundWays_of_ways_eq_nil (ways_round_of_noWord hs hback), List.nil_append,
    List.flatMap_singleton, ways_word_eq_nil hs hback]

/-! ## 3. What stands in front -/

theorem inWord_eq_false {c : Char} : inWord c = false ↔ c = '\n' ∨ c = '\x0c' ∨ c = ' ' := by
  simp only [inWord, Bool.and_eq_false_iff, bne_eq_false_iff_eq, or_assoc]

theorem ways_opening (s : Progress) : openingMatcher.ways s =
    (Matcher.one (.single '\n')).ways s ++ ((if s.place.before.isNone then [s] else []) ++
      ((if s.place.after.isEmpty then [s] else []) ++
        ((Matcher.one (.single '\x0c')).ways s ++ (Matcher.one (.single ' ')).ways s))) := rfl

variable {β : Type} {f : Progress → List β} {c : Char}

theorem flatMap_stay (hf : f s = []) (stay : Bool) : (if stay then [s] else []).flatMap f = [] := by
  cases stay
  · rfl
  · rw [if_pos rfl, List.flatMap_singleton, hf]

/-- A character that is in no word is taken; staying in front of it leads nowhere. -/
theorem flatMap_opening_of_noWord (hs : s.place = .between front (c :: back))
    (hc : inWord c = false) (hf : f s = []) : (openingMatcher.ways s).flatMap f =
      f { s with place := .between (front ++ [c]) back, passed := [] } := by
  simp only [ways_opening, List.flatMap_append, flatMap_stay hf, ways_one hs, CharSet.contains_single,
    List.nil_append]
  rcases inWord_eq_false.mp hc with rfl | rfl | rfl <;> simp

/-- A character of a word is in front of a field at the beginning of the text only. -/
theorem ways_opening_of_inWord (hs : s.place = .between front (c :: back))
    (hc : inWord c = true) : openingMatcher.ways s = if front = [] then [s] else [] := by
  have hnone (d : Char) (hd : inWord d = false) : (Matcher.one (.single d)).ways s = [] := by
    rw [ways_one hs, if_neg]
    rw [CharSet.contains_single, beq_iff_eq]
    rintro rfl
    rw [hc] at hd
    cases hd
  rw [ways_opening, hnone '\n' rfl, hnone '\x0c' rfl, hnone ' ' rfl]
  cases front <;> simp [hs, Place.between]

/-- Nothing comes behind the end of the text. -/
theorem flatMap_opening_of_nil (hs : s.place = .between front []) (hf : f s = []) :
    (openingMatcher.ways s).flatMap f = [] := by
  simp only [ways_opening, List.flatMap_append, flatMap_stay hf, ways_one_nil hs, List.flatMap_nil,
    List.append_nil]

/-! ## 4. Fields of a text -/

/-- The field that is found at a place. -/
def fieldAt? (p : Place) : Option Span :=
  (fieldPattern.matcher.matchAt? p).bind fun found =>
    (found.bounds? 2).bind fun (start, stop) => Span.ofBounds? start stop 0

theorem spans_field (text : List Char) :
    fieldPattern.spans 2 true text = (placesFrom [] text).filterMap fieldAt? := by
  rw [spans, Finder.spans, matches_overlapped, List.filterMap_filterMap]
  rfl

/-- The ways through a field behind its opening. -/
def waysBehind (p : Place) (s : Progress) : List Progress :=
  (Matcher.group 2 phraseMatcher).ways
    { s with groups := (1, p.position, s.place.position) :: s.groups }

theorem ways_field (p : Place) : fieldPattern.matcher.ways ⟨p, [], []⟩ =
    (openingMatcher.ways ⟨p, [], []⟩).flatMap (waysBehind p) := by
  rw [matcher_fieldPattern, Matcher.ways_seq, Matcher.ways_group, List.flatMap_map]
  rfl

theorem waysBehind_eq_nil {p : Place} (hs : s.place = .between front back) (hback : NoWord back) :
    waysBehind p s = [] := by
  have hnone : phraseMatcher.ways
      { s with groups := (1, p.position, s.place.position) :: s.groups } = [] :=
    ways_phrase_eq_nil hs hback
  rw [waysBehind, Matcher.ways_group, hnone, List.map_nil]

/-- **The field behind an opening is the longest phrase.** -/
theorem fieldAt?_of_phrase {p : Place} (hs : s.place = .between front (run ++ back))
    (hrun : Phrase run) (hback : Closes back)
    (hways : fieldPattern.matcher.ways ⟨p, [], []⟩ = waysBehind p s) :
    fieldAt? p = some (spanOf front run) := by
  have hplace : ({ s with groups := (1, p.position, s.place.position) :: s.groups } :
      Progress).place = .between front (run ++ back) := hs
  obtain ⟨t, ht, hlast⟩ := first_of_ways_phrase hrun hback hplace
  rw [fieldAt?, Matcher.matchAt?_eq, hways, waysBehind, Matcher.ways_group, List.head?_map, ht]
  simp only [Option.map_some, Option.bind_some, Match.bounds?, hlast, hs, Place.between,
    Text.width_append]
  exact dif_pos (Nat.le_add_right _ _)

/-- What stands between a place and the field that is found there. -/
inductive Lead (front : List Char) : List Char → Prop where
  | textStart : front = [] → Lead front []
  | noWord {c : Char} : inWord c = false → Lead front [c]

/-- A phrase behind its opening is found. -/
theorem fieldAt?_of_lead {lead : List Char} (hlead : Lead front lead) (hrun : Phrase run)
    (hrest : Closes rest) :
    fieldAt? (.between front (lead ++ (run ++ rest))) = some (spanOf (front ++ lead) run) := by
  cases hlead with
  | textStart hfront =>
    subst hfront
    obtain ⟨c, behind, hc, hword⟩ := exists_of_not_noWord (hrun.not_noWord rest)
    rw [List.append_nil]
    refine fieldAt?_of_phrase (s := ⟨.between [] (run ++ rest), [], []⟩) rfl hrun hrest ?_
    rw [ways_field, List.nil_append, ways_opening_of_inWord (by rw [hc]) hword, if_pos rfl,
      List.flatMap_singleton]
  | @noWord c hc =>
    refine fieldAt?_of_phrase (s := ⟨.between (front ++ [c]) (run ++ rest), [], []⟩)
      rfl hrun hrest ?_
    rw [ways_field]
    exact flatMap_opening_of_noWord rfl hc (waysBehind_eq_nil rfl (noWord_cons.mpr hc))

theorem fieldAt?_eq_none {p : Place} (h : fieldPattern.matcher.ways ⟨p, [], []⟩ = []) :
    fieldAt? p = none := by
  rw [fieldAt?, Matcher.matchAt?_eq, h]
  rfl

/-- **At a place that can open a field, the longest phrase is found**, and at no other place
anything. -/
theorem fieldAt?_eq_some {a : Span} : fieldAt? (.between front back) = some a ↔
    ∃ lead run rest, back = lead ++ (run ++ rest) ∧ Lead front lead ∧ Phrase run ∧ Closes rest ∧
      a = spanOf (front ++ lead) run := by
  constructor
  · intro h
    -- a phrase must begin behind one of the openings
    suffices hbegins : ∃ lead behind, back = lead ++ behind ∧ Lead front lead ∧ ¬ NoWord behind by
      obtain ⟨lead, behind, rfl, hlead, hword⟩ := hbegins
      obtain ⟨run, rest, rfl, hrun, hrest⟩ := exists_phrase hword
      refine ⟨lead, run, rest, rfl, hlead, hrun, hrest, ?_⟩
      exact Option.some.inj (h.symm.trans (fieldAt?_of_lead hlead hrun hrest))
    by_contra hnone
    suffices hways : fieldPattern.matcher.ways ⟨.between front back, [], []⟩ = [] by
      rw [fieldAt?_eq_none hways] at h
      cases h
    rw [ways_field]
    cases back with
    | nil => exact flatMap_opening_of_nil rfl (waysBehind_eq_nil rfl noWord_nil)
    | cons c behind =>
      cases hc : inWord c with
      | true =>
        have hword : ¬ NoWord (c :: behind) := by
          rw [noWord_cons, hc]
          exact Bool.noConfusion
        rw [ways_opening_of_inWord rfl hc, if_neg, List.flatMap_nil]
        intro hfront
        exact hnone ⟨[], c :: behind, rfl, .textStart hfront, hword⟩
      | false =>
        rw [flatMap_opening_of_noWord rfl hc (waysBehind_eq_nil rfl (noWord_cons.mpr hc))]
        refine waysBehind_eq_nil rfl ?_
        by_contra hword
        exact hnone ⟨[c], behind, rfl, .noWord hc, hword⟩
  · rintro ⟨lead, run, rest, rfl, hlead, hrun, hrest, rfl⟩
    exact fieldAt?_of_lead hlead hrun hrest

/-- The fields of a text, as the pattern finds them. -/
def fields (text : List Char) : List Span := fieldPattern.spans 2 true text

/-- **The fields that are found are the phrases that no word goes on behind, and that no word runs
into from the front.** -/
theorem mem_fields {text : List Char} {a : Span} : a ∈ fields text ↔
    ∃ front run back, text = front ++ (run ++ back) ∧ Opens front ∧ Phrase run ∧ Closes back ∧
      a = spanOf front run := by
  rw [fields, spans_field, List.mem_filterMap]
  constructor
  · rintro ⟨p, hp, hfound⟩
    obtain ⟨passed, behind, rfl, rfl⟩ := mem_placesFrom.mp hp
    obtain ⟨lead, run, rest, rfl, hlead, hrun, hrest, rfl⟩ := fieldAt?_eq_some.mp hfound
    refine ⟨passed ++ lead, run, rest, by simp, ?_, hrun, hrest, rfl⟩
    cases hlead with
    | textStart hfront =>
      rw [List.nil_append] at hfront
      rw [hfront]
      exact fun c hc => by cases hc
    | noWord hc => simpa [Opens] using hc
  · rintro ⟨front, run, back, rfl, hfront, hrun, hback, rfl⟩
    rcases List.eq_nil_or_concat front with rfl | ⟨before, c, rfl⟩
    · exact ⟨_, mem_placesFrom.mpr ⟨[], run ++ back, rfl, rfl⟩,
        fieldAt?_eq_some.mpr ⟨[], run, back, rfl, .textStart rfl, hrun, hback, rfl⟩⟩
    · have hc : inWord c = false := hfront c (by simp)
      refine ⟨_, mem_placesFrom.mpr ⟨before, [c] ++ (run ++ back), by simp, rfl⟩,
        fieldAt?_eq_some.mpr ⟨[c], run, back, rfl, .noWord hc, hrun, hback, ?_⟩⟩
      simp

/-- A field starts at its place or one position behind it; at its place, that is where the text
begins. -/
theorem start_of_fieldAt? {p : Place} {text : List Char} {a : Span} (hp : p ∈ placesFrom [] text)
    (h : fieldAt? p = some a) :
    a.start = p.position ∧ p.position = 0 ∨ a.start = p.position + 1 := by
  obtain ⟨passed, behind, rfl, rfl⟩ := mem_placesFrom.mp hp
  obtain ⟨lead, run, rest, rfl, hlead, hrun, hrest, rfl⟩ := fieldAt?_eq_some.mp h
  cases hlead with
  | textStart hfront =>
    left
    simp [spanOf, Place.between, hfront]
  | noWord hc =>
    right
    simp only [spanOf, Place.between, Text.width_append, Text.width_cons, Text.width_nil]
    rcases inWord_eq_false.mp hc with rfl | rfl | rfl <;> rfl

/-- **The fields are found from left to right, and no two of them start at the same position.** -/
theorem pairwise_fields (text : List Char) :
    (fields text).Pairwise fun a b => a.start < b.start := by
  rw [fields, spans_field, List.pairwise_filterMap]
  refine (pairwise_placesFrom [] text).imp_of_mem fun {p q} hp hq hlt a ha b hb => ?_
  have hstart := start_of_fieldAt? hp ha
  have hstart' := start_of_fieldAt? hq hb
  omega

theorem nodup_fields (text : List Char) : (fields text).Nodup := by
  refine (pairwise_fields text).imp ?_
  rintro a b hlt rfl
  exact Nat.lt_irrefl _ hlt

end TaggedText.Pattern
