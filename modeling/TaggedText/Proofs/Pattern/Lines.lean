/-
# Lines

A line ends at a line feed, a form feed or the end of the text.  The pattern for lines takes all up
to there and the end of the line too, so that a scan goes on with the next line.  There is one
exception: at a form feed that the text begins with, the pattern prefers the beginning of the text
to the form feed and matches without taking anything; the scan then leaves out the same empty match
and looks for one behind the form feed.

Either way the scan finds **the pieces of the text between the breaks** (`lines_text`).  The piece
behind a break at the very end of the text is empty, and may be left out; so what is said of lines
is that each comes behind the one before (`Lines.pairwise`), and that **a piece of the text without
breaks lies in exactly one line** (`exists_line`, `line_unique`).
-/
import TaggedText.Pattern.Reader
import TaggedText.Pattern.Standard
import TaggedText.Proofs.Pattern.Ways
import TaggedText.Proofs.Spans.Covering
import Mathlib.Data.List.TakeWhile

namespace TaggedText.Pattern

/-! ## 1. Lines of a text -/

/-- The character ends a line or a page. -/
def isBreak (c : Char) : Bool := c == '\n' || c == '\x0c'

/-- There is no break in the text. -/
def Unbroken (l : List Char) : Prop := ∀ c ∈ l, isBreak c = false

theorem unbroken_nil : Unbroken [] := fun _ hc => absurd hc List.not_mem_nil

/-- The spans are those of the lines of the back of a text.  There may be one for the empty piece
behind the last break, or none. -/
inductive Lines : List Char → List Char → List Span → Prop where
  | nothing (front : List Char) : Lines front [] []
  | last {line : List Char} (front : List Char) : Unbroken line →
      Lines front line [spanOf front line]
  | more {front line back : List Char} {c : Char} {spans : List Span} : Unbroken line →
      isBreak c = true → Lines (front ++ (line ++ [c])) back spans →
      Lines front (line ++ c :: back) (spanOf front line :: spans)

variable {front back line rest : List Char} {spans : List Span} {a r : Span}

theorem Lines.start_le (h : Lines front back spans) : ∀ r ∈ spans, Text.width front ≤ r.start := by
  induction h with
  | nothing => exact fun r hr => absurd hr List.not_mem_nil
  | last front => exact fun r hr => List.mem_singleton.mp hr ▸ Nat.le_refl _
  | more _ _ _ ih =>
    intro r hr
    rcases List.mem_cons.mp hr with rfl | hr
    · exact Nat.le_refl _
    · have hle := ih r hr
      rw [Text.width_append] at hle
      omega

/-- **A line starts behind the one before.** -/
theorem Lines.pairwise (h : Lines front back spans) :
    spans.Pairwise fun r r' => r.stop < r'.start := by
  induction h with
  | nothing => exact .nil
  | last => exact List.pairwise_singleton _ _
  | @more front line back c spans _ _ hrest ih =>
    refine List.pairwise_cons.mpr ⟨fun r hr => ?_, ih⟩
    have hle := hrest.start_le r hr
    have hc := c.utf8Size_pos
    simp only [Text.width_append, Text.width_cons, Text.width_nil] at hle
    simp only [spanOf]
    omega

/-- Where a piece without breaks stands in front of a break, all of it does. -/
theorem Unbroken.exists_eq_append {run behind before : List Char} {c : Char} (hrun : Unbroken run)
    (hc : isBreak c = true) (h : run ++ behind = before ++ c :: back) :
    ∃ rest, before = run ++ rest := by
  rcases List.append_eq_append_iff.mp h with ⟨rest, hbefore, -⟩ | ⟨rest, hsplit, hcons⟩
  · exact ⟨rest, hbefore⟩
  · cases rest with
    | nil => exact ⟨[], by rw [hsplit, List.append_nil, List.append_nil]⟩
    | cons d rest =>
      obtain ⟨rfl, -⟩ := List.cons.inj hcons
      have hno := hrun c (hsplit ▸ List.mem_append_right _ List.mem_cons_self)
      rw [hc] at hno
      cases hno

/-- **A piece without breaks lies in a line.** -/
theorem Lines.exists_within (h : Lines front back spans) {before run behind : List Char}
    (hback : back = before ++ (run ++ behind)) (hne : run ≠ []) (hrun : Unbroken run) :
    ∃ r ∈ spans, (spanOf (front ++ before) run).within r = true := by
  induction h generalizing before with
  | nothing => simp_all
  | @last line front _ =>
    refine ⟨_, List.mem_singleton_self _, Span.within_iff.mpr ?_⟩
    simp only [hback, spanOf, Text.width_append]
    omega
  | @more front line back c spans _ hc _ ih =>
    rcases List.append_eq_append_iff.mp hback with
      ⟨between, rfl, hcons⟩ | ⟨inside, rfl, hinside⟩
    · cases between with
      | nil =>
        -- the piece would begin with the break
        have hcons : run ++ behind = [] ++ c :: back := hcons.symm
        obtain ⟨rest, hnil⟩ := hrun.exists_eq_append hc hcons
        exact absurd (List.append_eq_nil_iff.mp hnil.symm).1 hne
      | cons d between =>
        obtain ⟨rfl, htail⟩ := List.cons.inj hcons
        obtain ⟨r, hr, hwithin⟩ := ih htail
        refine ⟨r, List.mem_cons_of_mem _ hr, ?_⟩
        rwa [List.append_assoc, List.append_assoc] at hwithin
    · obtain ⟨rest, rfl⟩ := hrun.exists_eq_append hc hinside
      refine ⟨_, List.mem_cons_self, Span.within_iff.mpr ?_⟩
      simp only [spanOf, Text.width_append]
      omega

/-- **A span with positions lies in one line at most.** -/
theorem Lines.unique (h : Lines front back spans) {r' : Span} (hr : r ∈ spans) (hr' : r' ∈ spans)
    (ha : a.start < a.stop) (hwithin : a.within r = true) (hwithin' : a.within r' = true) :
    r = r' := by
  have hapart : spans.Pairwise fun r r' => ¬ (a.within r = true ∧ a.within r' = true) := by
    refine h.pairwise.imp fun hlt hboth => ?_
    rw [Span.within_iff, Span.within_iff] at hboth
    omega
  exact Span.eq_of_pairwise_not (fun _ _ => And.symm) hapart hr hr' ⟨hwithin, hwithin'⟩

/-! ## 2. Matching a line -/

/-- The characters of lines, as the pattern has them. -/
def lineSet : CharSet := .complement (.union (.union .none (.single '\n')) (.single '\x0c'))

/-- The pattern for lines, with the contents as group 1 and the end as group 2. -/
def linePattern : Pattern :=
  .seq (.group 1 (.rounds true 0 none (.one lineSet)))
    (.group 2 (.choice (.one (.single '\n')) (.choice (.anchor .textEnd)
      (.choice (.anchor .textStart) (.one (.single '\x0c'))))))

theorem read?_line : Pattern.read? Standard.line.toList = some linePattern := rfl

/-- As much of a line as there is. -/
def contentsMatcher : Matcher := .choice (.loop true (.one lineSet)) .empty

/-- The end of a line. -/
def endMatcher : Matcher :=
  .choice (.one (.single '\n')) (.choice (.anchor .textEnd)
    (.choice (.anchor .textStart) (.one (.single '\x0c'))))

theorem matcher_linePattern : linePattern.matcher =
    .seq (.group 1 contentsMatcher) (.group 2 endMatcher) := rfl

theorem contains_lineSet (c : Char) : lineSet.contains c = !isBreak c := by
  simp only [lineSet, CharSet.contains, CharSet.contains_single, isBreak, Bool.false_or,
    BEq.comm (a := c)]

variable {s : Progress} {c : Char}

/-- **The first way through the contents goes to the end of the line.** -/
theorem first_of_ways_contents (hs : s.place = .between front (line ++ rest))
    (hline : Unbroken line) (hrest : ∀ c ∈ rest.head?, isBreak c = true) :
    ∃ t, (contentsMatcher.ways s).head? = some t ∧ t.place = .between (front ++ line) rest := by
  have hset : ∀ c ∈ rest.head?, lineSet.contains c = false := fun c hc => by
    rw [contains_lineSet, hrest c hc]
    rfl
  rw [contentsMatcher, Matcher.ways_choice]
  by_cases hne : line = []
  · rw [hne, List.nil_append] at hs
    rw [ways_loop_one_eq_nil hs hset, hne, List.append_nil]
    exact ⟨s, rfl, hs⟩
  · obtain ⟨others, hways, -⟩ := ways_loop_one hs hne
      (fun c hc => by rw [contains_lineSet, hline c hc]; rfl) hset
    rw [hways]
    exact ⟨_, rfl, rfl⟩

theorem ways_end (s : Progress) : endMatcher.ways s =
    (Matcher.one (.single '\n')).ways s ++ ((if s.place.after.isEmpty then [s] else []) ++
      ((if s.place.before.isNone then [s] else []) ++ (Matcher.one (.single '\x0c')).ways s)) := rfl

/-- From one place the end of a line leads to another, without passing groups. -/
def EndLeads (p q : Place) : Prop :=
  ∀ s : Progress, s.place = p →
    ∃ t, (endMatcher.ways s).head? = some t ∧ t.groups = s.groups ∧ t.place = q

/-- A line ends at the end of the text. -/
theorem endLeads_of_nil (front : List Char) : EndLeads (.between front []) (.between front []) := by
  intro s hs
  refine ⟨s, ?_, rfl, hs⟩
  rw [ways_end, ways_one_nil hs]
  simp [hs, Place.between]

/-- A line ends at a break, and this is taken too. -/
theorem endLeads_of_break (hc : isBreak c = true) (hfront : c = '\n' ∨ front ≠ []) :
    EndLeads (.between front (c :: back)) (.between (front ++ [c]) back) := by
  intro s hs
  refine ⟨{ s with place := .between (front ++ [c]) back, passed := [] }, ?_, rfl, rfl⟩
  rw [ways_end, ways_one hs, ways_one hs, CharSet.contains_single, CharSet.contains_single]
  rw [isBreak, Bool.or_eq_true, beq_iff_eq, beq_iff_eq] at hc
  rcases hc with rfl | rfl
  · rfl
  · have hstart : front ≠ [] := hfront.resolve_left (by decide)
    simp [hs, Place.between, hstart]

/-- At a form feed that the text begins with, nothing is taken. -/
theorem endLeads_of_formFeed (back : List Char) :
    EndLeads (.between [] ('\x0c' :: back)) (.between [] ('\x0c' :: back)) := by
  intro s hs
  refine ⟨s, ?_, rfl, hs⟩
  rw [ways_end, ways_one hs]
  simp [hs, Place.between]

/-- The span of a line's contents in a match. -/
def contents? (found : Match) : Option Span :=
  (found.bounds? 1).bind fun (start, stop) => Span.ofBounds? start stop 0

/-- **A match from the beginning of a line has the line as its contents**, and stops where the end
of the line leads. -/
theorem exists_match_of_line {last : Place} (hback : back = line ++ rest) (hline : Unbroken line)
    (hrest : ∀ c ∈ rest.head?, isBreak c = true)
    (hend : EndLeads (.between (front ++ line) rest) last) :
    ∃ found, linePattern.matcher.find? (.between front back) = some found ∧
      found.first = .between front back ∧ found.last = last ∧
      contents? found = some (spanOf front line) := by
  subst hback
  obtain ⟨t, ht, hplace⟩ := first_of_ways_contents (s := ⟨.between front (line ++ rest), [], []⟩)
    rfl hline hrest
  obtain ⟨u, hu, hgroups, hlast⟩ := hend
    { t with groups := (1, (Place.between front (line ++ rest)).position, t.place.position) ::
      t.groups } hplace
  refine ⟨⟨.between front (line ++ rest), u.place,
    (2, t.place.position, u.place.position) :: u.groups⟩, ?_, rfl, hlast, ?_⟩
  · apply Matcher.find?_of_matchAt?
    obtain ⟨others, hways⟩ := List.head?_eq_some_iff.mp ht
    rw [Matcher.matchAt?_eq, matcher_linePattern, Matcher.ways_seq, Matcher.ways_group, hways,
      List.map_cons, List.flatMap_cons, Matcher.ways_group, List.head?_append, List.head?_map, hu]
    rfl
  · have hbounds : (Match.bounds? ⟨.between front (line ++ rest), u.place,
        (2, t.place.position, u.place.position) :: u.groups⟩ 1) =
          some (Text.width front, Text.width front + Text.width line) := by
      rw [Match.bounds?, if_neg Nat.one_ne_zero, hgroups, hplace]
      simp [List.lookup_cons, Place.between]
    rw [contents?, hbounds]
    exact dif_pos (Nat.le_add_right _ _)

/-! ## 3. Scanning for lines -/

/-- The lines that a plain scan finds from a place on. -/
def linesFrom (fuel : Nat) (p : Place) (stopped : Option Nat) : List Span :=
  (linePattern.matcher.plainFrom fuel p stopped).filterMap contents?

/-- A match is taken, unless it is empty and the match before has stopped there. -/
theorem linesFrom_of_taken {p : Place} {found : Match} {stopped : Option Nat} (fuel : Nat)
    (hfound : linePattern.matcher.find? p = some found) (hcontents : contents? found = some a)
    (htaken : ¬ (found.first.position = found.last.position ∧
      stopped = some found.last.position)) :
    linesFrom (fuel + 1) p stopped = a :: linesFrom fuel found.last (some found.last.position) := by
  rw [linesFrom, Matcher.plainFrom, hfound]
  simp only
  rw [if_neg htaken, List.filterMap_cons_some hcontents, linesFrom]

/-- Otherwise the scan goes on at the next place, as it would begin there. -/
theorem linesFrom_of_left {p : Place} {found : Match} {stopped : Option Nat} (fuel : Nat)
    (hfound : linePattern.matcher.find? p = some found)
    (hleft : found.first.position = found.last.position ∧ stopped = some found.last.position) :
    linesFrom (fuel + 1) p stopped =
      (p.next?.map fun q => linesFrom (fuel + 1) q none).getD [] := by
  rw [linesFrom, Matcher.plainFrom, hfound]
  simp only
  rw [if_pos hleft]
  cases p.next? with
  | none => rfl
  | some q =>
    rw [Option.bind_some, Option.map_some, Option.getD_some, linesFrom, Matcher.plainFrom]
    cases linePattern.matcher.find? q with
    | none => rfl
    | some later => simp

/-- Where a match has stopped at the end of the text, there is no other line. -/
theorem linesFrom_of_nil (fuel : Nat) (front : List Char) :
    linesFrom fuel (.between front []) (some (Text.width front)) = [] := by
  cases fuel with
  | zero => rfl
  | succ fuel =>
    have hend : EndLeads (.between (front ++ []) []) (.between front []) := by
      rw [List.append_nil]
      exact endLeads_of_nil front
    obtain ⟨found, hfound, hfirst, hlast, -⟩ := exists_match_of_line (List.append_nil []).symm
      unbroken_nil (fun _ hc => by cases hc) hend
    have hleft : found.first.position = found.last.position ∧
        some (Text.width front) = some found.last.position := by
      rw [hfirst, hlast]
      exact ⟨rfl, rfl⟩
    exact linesFrom_of_left fuel hfound hleft

/-- A text without breaks is one line, or nothing where a match has stopped at its end. -/
theorem lines_of_unbroken (hline : Unbroken line) (fuel : Nat) (stopped : Option Nat) :
    Lines front line (linesFrom (fuel + 1) (.between front line) stopped) := by
  obtain ⟨found, hfound, hfirst, hlast, hcontents⟩ := exists_match_of_line
    (List.append_nil line).symm hline (fun _ hc => by cases hc) (endLeads_of_nil (front ++ line))
  by_cases hleft : found.first.position = found.last.position ∧ stopped = some found.last.position
  · have hwidth : Text.width line = 0 := by
      have hsame := hleft.1
      rw [hfirst, hlast] at hsame
      simpa [Place.between] using hsame
    cases Text.eq_nil_of_width_eq_zero hwidth
    rw [linesFrom_of_left fuel hfound hleft]
    exact .nothing front
  · have hnone : linesFrom fuel (.between (front ++ line) [])
        (some (Place.between (front ++ line) []).position) = [] := linesFrom_of_nil fuel _
    rw [linesFrom_of_taken fuel hfound hcontents hleft, hlast, hnone]
    exact .last front hline

theorem exists_line_and_rest (back : List Char) :
    ∃ line rest, back = line ++ rest ∧ Unbroken line ∧ ∀ c ∈ rest.head?, isBreak c = true := by
  refine ⟨back.takeWhile (!isBreak ·), back.dropWhile (!isBreak ·),
    (List.takeWhile_append_dropWhile).symm, fun c hc => ?_, fun c hc => ?_⟩
  · simpa using List.mem_takeWhile_imp hc
  · have hnot := List.head?_dropWhile_not (!isBreak ·) back
    rw [Option.mem_def.mp hc] at hnot
    simpa using hnot

/-- **A scan from the beginning of a line finds the lines from there on.** -/
theorem lines_linesFrom {fuel : Nat} (front back : List Char) (stopped : Option Nat)
    (hfuel : back.length < fuel) (hstart : front = [] → back.head? ≠ some '\x0c') :
    Lines front back (linesFrom fuel (.between front back) stopped) := by
  induction fuel generalizing front back stopped with
  | zero => exact absurd hfuel (Nat.not_lt_zero _)
  | succ fuel ih =>
    obtain ⟨line, rest, rfl, hline, hrest⟩ := exists_line_and_rest back
    cases rest with
    | nil =>
      rw [List.append_nil]
      exact lines_of_unbroken hline fuel stopped
    | cons c back =>
      have hc : isBreak c = true := hrest c rfl
      have hfront : c = '\n' ∨ front ++ line ≠ [] := by
        by_contra hneither
        obtain ⟨hlineFeed, hnil⟩ := not_or.mp hneither
        obtain ⟨rfl, rfl⟩ := List.append_eq_nil_iff.mp (not_not.mp hnil)
        refine hstart rfl ?_
        rw [isBreak, Bool.or_eq_true, beq_iff_eq, beq_iff_eq] at hc
        rw [hc.resolve_left hlineFeed]
        rfl
      obtain ⟨found, hfound, hfirst, hlast, hcontents⟩ := exists_match_of_line rfl hline hrest
        (endLeads_of_break hc hfront)
      have htaken : ¬ (found.first.position = found.last.position ∧
          stopped = some found.last.position) := by
        rintro ⟨hsame, -⟩
        have hpos := c.utf8Size_pos
        rw [hfirst, hlast] at hsame
        simp only [Place.between, Text.width_append, Text.width_cons, Text.width_nil] at hsame
        omega
      rw [linesFrom_of_taken fuel hfound hcontents htaken, hlast, List.append_assoc]
      refine .more hline hc (ih _ _ _ ?_ fun hnil => ?_)
      · rw [List.length_append, List.length_cons] at hfuel
        omega
      · simp at hnil

/-- The lines of a text, as the pattern finds them. -/
def lines (text : List Char) : List Span := linePattern.spans 1 false text

/-- **The lines that are found are the pieces between the breaks.** -/
theorem lines_text (text : List Char) : Lines [] text (lines text) := by
  have heq : lines text = linesFrom (2 * text.length + 2) (.between [] text) none := rfl
  by_cases hformFeed : text.head? = some '\x0c'
  · obtain ⟨back, rfl⟩ := List.head?_eq_some_iff.mp hformFeed
    have hend : EndLeads (.between ([] ++ []) ('\x0c' :: back)) (.between [] ('\x0c' :: back)) :=
      endLeads_of_formFeed back
    obtain ⟨found, hfound, hfirst, hlast, hcontents⟩ := exists_match_of_line
      (List.nil_append ('\x0c' :: back)).symm unbroken_nil
      (fun _ hc => by cases hc; rfl) hend
    have htaken : ¬ (found.first.position = found.last.position ∧
        none = some found.last.position) := fun hboth => nomatch hboth.2
    rw [heq, linesFrom_of_taken _ hfound hcontents htaken, hlast]
    -- the second match is the first one again, and is left out
    have hleft : found.first.position = found.last.position ∧
        some (Place.between [] ('\x0c' :: back)).position = some found.last.position := by
      rw [hfirst, hlast]
      exact ⟨rfl, rfl⟩
    rw [linesFrom_of_left _ hfound hleft, Place.next?_between, Option.map_some, Option.getD_some]
    refine .more unbroken_nil rfl
      (lines_linesFrom _ _ _ ?_ fun hnil => by cases hnil)
    rw [List.length_cons]
    omega
  · rw [heq]
    exact lines_linesFrom _ _ _ (by omega) fun _ => hformFeed

/-- **A piece of a text without breaks lies in a line.** -/
theorem exists_line {text run : List Char} (htext : text = front ++ (run ++ back)) (hne : run ≠ [])
    (hrun : Unbroken run) : ∃ r ∈ lines text, (spanOf front run).within r = true :=
  (lines_text text).exists_within htext hne hrun

/-- **It does not lie in a second one.** -/
theorem line_unique {text : List Char} {r' : Span} (hr : r ∈ lines text) (hr' : r' ∈ lines text)
    (ha : a.start < a.stop) (hwithin : a.within r = true) (hwithin' : a.within r' = true) :
    r = r' :=
  (lines_text text).unique hr hr' ha hwithin hwithin'

end TaggedText.Pattern
