/-
# The ways in which a matcher goes on

A search runs a matcher with a test of the rest and takes the first way whose rest succeeds.  Here
the ways are listed without the test, the preferred one first (`Matcher.ways`).  **A search finds
the first of them that the test accepts**, `Matcher.run_eq`; so a match at a place is the first way
from that place (`Matcher.matchAt?_eq`), and what a pattern matches can be read off lists.

Section 2 tells the places of a text by the characters before and behind them, and section 3 has the
ways of the matchers that patterns for printed documents are made of: a set, and as many characters
of a set as there are.  Section 4 is about scans: **an overlapped scan finds one match for every
place at which there is one**, however it looks for them, as long as it is told of the first match
from a place on (`FindsFirst`, `scanFrom_eq`; `matches_overlapped` for patterns).
-/
import TaggedText.Pattern.Scan
import TaggedText.Proofs.Text.Positions

namespace TaggedText.Pattern

/-! ## 1. Ways -/

/-- The ways through the rounds of a loop, as `roundsOf` goes through them. -/
def roundWays (greedy : Bool) (round : Progress → List Progress) : Nat → Progress → List Progress
  | 0, _ => []
  | fuel + 1, s =>
    (round s).flatMap fun t =>
      if t.place.after.length < s.place.after.length then
        if greedy then roundWays greedy round fuel t ++ [t]
        else t :: roundWays greedy round fuel t
      else [t]

/-- All ways to match from here on, the preferred one first. -/
def Matcher.ways : Matcher → Progress → List Progress
  | empty, s => [s]
  | one set, s =>
    match s.place.after with
    | [] => []
    | c :: rest =>
      if set.contains c then
        [{ s with place := ⟨s.place.position + c.utf8Size, some c, rest⟩, passed := [] }]
      else []
  | anchor a, s => if a.holds s.place then [s] else []
  | seq m n, s => (m.ways s).flatMap n.ways
  | choice m n, s => m.ways s ++ n.ways s
  | loop greedy round, s => roundWays greedy round.ways (s.place.after.length + 1) s
  | group index m, s =>
    (m.ways s).map fun t =>
      { t with groups := (index, s.place.position, t.place.position) :: t.groups }
  | checkpoint id, s =>
    if s.passed.contains id then [] else [{ s with passed := id :: s.passed }]

theorem Matcher.ways_seq (m n : Matcher) (s : Progress) :
    (seq m n).ways s = (m.ways s).flatMap n.ways := rfl

theorem Matcher.ways_choice (m n : Matcher) (s : Progress) :
    (choice m n).ways s = m.ways s ++ n.ways s := rfl

theorem Matcher.ways_group (index : Nat) (m : Matcher) (s : Progress) :
    (group index m).ways s = (m.ways s).map fun t =>
      { t with groups := (index, s.place.position, t.place.position) :: t.groups } := rfl

theorem findSome?_flatMap {α β γ : Type} (l : List α) (f : α → List β) (k : β → Option γ) :
    (l.flatMap f).findSome? k = l.findSome? fun a => (f a).findSome? k := by
  induction l with
  | nil => rfl
  | cons a l ih =>
    rw [List.flatMap_cons, List.findSome?_append, ih, List.findSome?_cons]
    cases (f a).findSome? k <;> rfl

/-- Rounds are gone through in the order of their ways if this is so for one round. -/
theorem roundsOf_eq {greedy : Bool} {round : Progress → Continuation → Option Progress}
    {ways : Progress → List Progress} (hround : ∀ s k, round s k = (ways s).findSome? k)
    (k : Continuation) (fuel : Nat) (s : Progress) :
    roundsOf greedy round k fuel s = (roundWays greedy ways fuel s).findSome? k := by
  induction fuel generalizing s with
  | zero => rfl
  | succ fuel ih =>
    unfold roundsOf roundWays
    rw [hround, findSome?_flatMap]
    congr 1
    funext t
    split
    · split
      · rw [ih, List.findSome?_append, List.findSome?_singleton]
      · rw [ih, List.findSome?_cons]
        cases k t <;> rfl
    · rw [List.findSome?_singleton]

/-- **A search finds the first way whose continuation succeeds.** -/
theorem Matcher.run_eq (m : Matcher) (s : Progress) (k : Continuation) :
    m.run s k = (m.ways s).findSome? k := by
  induction m generalizing s k with
  | empty => exact List.findSome?_singleton.symm
  | one set =>
    unfold run ways
    cases s.place.after with
    | nil => rfl
    | cons c rest =>
      simp only
      split
      · exact List.findSome?_singleton.symm
      · rfl
  | anchor a =>
    unfold run ways
    split
    · exact List.findSome?_singleton.symm
    · rfl
  | seq m n ihm ihn =>
    unfold run ways
    rw [ihm, findSome?_flatMap]
    congr 1
    funext t
    exact ihn t k
  | choice m n ihm ihn =>
    unfold run ways
    rw [ihm, ihn, List.findSome?_append]
  | loop greedy round ih => exact roundsOf_eq ih k _ s
  | group index m ih =>
    unfold run ways
    rw [ih, List.findSome?_map]
    rfl
  | checkpoint id =>
    unfold run ways
    split
    · rfl
    · exact List.findSome?_singleton.symm

/-- **A match is the first way from its place.** -/
theorem Matcher.matchAt?_eq (m : Matcher) (p : Place) :
    m.matchAt? p = (m.ways ⟨p, [], []⟩).head?.map fun s => ⟨p, s.place, s.groups⟩ := by
  rw [matchAt?, run_eq]
  congr 1
  cases m.ways ⟨p, [], []⟩ <;> rfl

/-! ## 2. Places of a text -/

/-- The place between the front and the back of a text. -/
def Place.between (front back : List Char) : Place := ⟨Text.width front, front.getLast?, back⟩

theorem Place.between_snoc (front back : List Char) (c : Char) :
    Place.between (front ++ [c]) back = ⟨Text.width front + c.utf8Size, some c, back⟩ := by
  simp [between]

theorem Place.next?_between (front back : List Char) (c : Char) :
    (Place.between front (c :: back)).next? = some (.between (front ++ [c]) back) := by
  rw [between_snoc]
  rfl

/-- All places from the one between a front and a back on. -/
def placesFrom (front : List Char) : List Char → List Place
  | [] => [.between front []]
  | c :: back => .between front (c :: back) :: placesFrom (front ++ [c]) back

theorem mem_placesFrom {front back : List Char} {p : Place} : p ∈ placesFrom front back ↔
    ∃ passed rest, back = passed ++ rest ∧ p = .between (front ++ passed) rest := by
  induction back generalizing front with
  | nil =>
    simp only [placesFrom, List.mem_singleton, List.nil_eq_append_iff]
    constructor
    · rintro rfl
      exact ⟨[], [], ⟨rfl, rfl⟩, by rw [List.append_nil]⟩
    · rintro ⟨passed, rest, ⟨rfl, rfl⟩, rfl⟩
      rw [List.append_nil]
  | cons c back ih =>
    rw [placesFrom, List.mem_cons, ih]
    constructor
    · rintro (rfl | ⟨passed, rest, rfl, rfl⟩)
      · exact ⟨[], c :: back, rfl, by rw [List.append_nil]⟩
      · exact ⟨c :: passed, rest, rfl, by rw [List.append_assoc]; rfl⟩
    · rintro ⟨passed, rest, hback, rfl⟩
      cases passed with
      | nil =>
        left
        rw [List.append_nil, hback, List.nil_append]
      | cons d passed =>
        obtain ⟨rfl, rfl⟩ := List.cons.inj hback
        exact .inr ⟨passed, rest, rfl, by rw [List.append_assoc]; rfl⟩

/-- Places are listed from left to right. -/
theorem pairwise_placesFrom (front back : List Char) :
    (placesFrom front back).Pairwise fun p q => p.position < q.position := by
  induction back generalizing front with
  | nil => exact List.pairwise_singleton _ _
  | cons c back ih =>
    refine List.pairwise_cons.mpr ⟨fun q hq => ?_, ih _⟩
    obtain ⟨passed, rest, -, rfl⟩ := mem_placesFrom.mp hq
    have hc : 0 < c.utf8Size := c.utf8Size_pos
    simp only [Place.between, Text.width_append, Text.width_cons, Text.width_nil]
    omega

/-- The span of a piece that stands behind the front of a text. -/
def spanOf (front piece : List Char) : Span where
  start := Text.width front
  stop := Text.width front + Text.width piece
  offset := 0

/-- **In one text, a span tells where the text was split.** -/
theorem spanOf_inj {front run back front' run' back' : List Char}
    (h : front ++ (run ++ back) = front' ++ (run' ++ back'))
    (hspan : spanOf front run = spanOf front' run') :
    front = front' ∧ run = run' ∧ back = back' := by
  have hstart : Text.width front = Text.width front' := congrArg Span.start hspan
  have hstop : Text.width front + Text.width run = Text.width front' + Text.width run' :=
    congrArg Span.stop hspan
  obtain ⟨hfront, hrest⟩ := Text.append_inj_of_width_eq h hstart
  exact ⟨hfront, Text.append_inj_of_width_eq hrest (by omega)⟩

/-! ## 3. Ways of some matchers -/

variable {s : Progress} {front back : List Char} {set : CharSet}

/-- A set takes the next character if it has that one. -/
theorem ways_one {c : Char} (h : s.place = .between front (c :: back)) :
    (Matcher.one set).ways s = if set.contains c then
      [{ s with place := .between (front ++ [c]) back, passed := [] }] else [] := by
  rw [Place.between_snoc]
  unfold Matcher.ways
  simp only [h, Place.between]

theorem ways_one_nil (h : s.place = .between front []) : (Matcher.one set).ways s = [] := by
  unfold Matcher.ways
  simp only [h, Place.between]

theorem ways_one_eq_nil (h : s.place = .between front back)
    (hback : ∀ c ∈ back.head?, set.contains c = false) : (Matcher.one set).ways s = [] := by
  cases back with
  | nil => exact ways_one_nil h
  | cons c back =>
    rw [ways_one h, hback c rfl]
    rfl

theorem roundWays_of_ways_eq_nil {greedy : Bool} {round : Progress → List Progress}
    (h : round s = []) (fuel : Nat) : roundWays greedy round fuel s = [] := by
  cases fuel with
  | zero => rfl
  | succ fuel => rw [roundWays, h, List.flatMap_nil]

/-- Where a round has one way, another round is tried from there first. -/
theorem roundWays_of_ways_eq_singleton {round : Progress → List Progress} {t : Progress}
    (h : round s = [t]) (hshorter : t.place.after.length < s.place.after.length) (fuel : Nat) :
    roundWays true round (fuel + 1) s = roundWays true round fuel t ++ [t] := by
  rw [roundWays, h, List.flatMap_singleton, if_pos hshorter, if_pos rfl]

/-- The characters of the set are taken one after the other. -/
theorem roundWays_one {run : List Char} {fuel : Nat}
    (h : s.place = .between front (run ++ back)) (hrun : ∀ c ∈ run, set.contains c = true)
    (hback : ∀ c ∈ back.head?, set.contains c = false) (hfuel : run.length ≤ fuel) :
    (run = [] → roundWays true (Matcher.one set).ways fuel s = []) ∧
    (run ≠ [] → ∃ others, roundWays true (Matcher.one set).ways fuel s =
        { s with place := .between (front ++ run) back, passed := [] } :: others ∧
      ∀ t ∈ others, ∃ passed c rest, set.contains c = true ∧
        t.place = .between passed (c :: rest)) := by
  induction run generalizing s front fuel with
  | nil =>
    exact ⟨fun _ => roundWays_of_ways_eq_nil (ways_one_eq_nil h hback) fuel,
      fun hne => absurd rfl hne⟩
  | cons c run ih =>
    refine ⟨fun hnil => absurd hnil (List.cons_ne_nil c run), fun _ => ?_⟩
    cases fuel with
    | zero => exact absurd hfuel (by simp)
    | succ fuel =>
      rw [List.cons_append] at h
      have hshorter : (Place.between (front ++ [c]) (run ++ back)).after.length <
          s.place.after.length := by
        simp only [h, Place.between, List.length_cons]
        omega
      have hfirst : (Matcher.one set).ways s =
          [{ s with place := .between (front ++ [c]) (run ++ back), passed := [] }] := by
        rw [ways_one h, if_pos (hrun c List.mem_cons_self)]
      rw [roundWays_of_ways_eq_singleton hfirst hshorter]
      obtain ⟨hlast, hmore⟩ := ih (s := { s with
          place := .between (front ++ [c]) (run ++ back), passed := [] }) rfl
        (fun d hd => hrun d (List.mem_cons_of_mem c hd)) (Nat.le_of_succ_le_succ hfuel)
      cases run with
      | nil =>
        rw [hlast rfl]
        exact ⟨[], rfl, fun t ht => absurd ht List.not_mem_nil⟩
      | cons d run =>
        obtain ⟨others, heq, hothers⟩ := hmore (List.cons_ne_nil d run)
        rw [heq, List.append_assoc]
        refine ⟨_, rfl, fun t ht => ?_⟩
        rcases List.mem_append.mp ht with ht | ht
        · exact hothers t ht
        · rw [List.mem_singleton.mp ht]
          exact ⟨front ++ [c], d, run ++ back,
            hrun d (List.mem_cons_of_mem c List.mem_cons_self), rfl⟩

/-- **As many characters of a set as there are.**  The preferred way takes all of them, and the
others stop before one of them. -/
theorem ways_loop_one {run : List Char} (h : s.place = .between front (run ++ back))
    (hne : run ≠ []) (hrun : ∀ c ∈ run, set.contains c = true)
    (hback : ∀ c ∈ back.head?, set.contains c = false) :
    ∃ others, (Matcher.loop true (.one set)).ways s =
        { s with place := .between (front ++ run) back, passed := [] } :: others ∧
      ∀ t ∈ others, ∃ passed c rest, set.contains c = true ∧
        t.place = .between passed (c :: rest) := by
  refine (roundWays_one h hrun hback ?_).2 hne
  simp only [h, Place.between, List.length_append]
  omega

theorem ways_loop_one_eq_nil (h : s.place = .between front back)
    (hback : ∀ c ∈ back.head?, set.contains c = false) :
    (Matcher.loop true (.one set)).ways s = [] := by
  have h : s.place = .between front ([] ++ back) := h
  exact (roundWays_one h (fun _ hc => absurd hc List.not_mem_nil) hback (Nat.zero_le _)).1 rfl

/-! ## 4. Scans -/

theorem Matcher.findAfter?_of_some {m : Matcher} {position : Nat} {before : Option Char}
    {back : List Char} {found : Match} (h : m.matchAt? ⟨position, before, back⟩ = some found) :
    m.findAfter? position before back = some found := by
  cases back with
  | nil => exact h
  | cons c back => rw [findAfter?, h]

theorem Matcher.findAfter?_of_none {m : Matcher} {position : Nat} {before : Option Char} {c : Char}
    {back : List Char} (h : m.matchAt? ⟨position, before, c :: back⟩ = none) :
    m.findAfter? position before (c :: back) =
      m.findAfter? (position + c.utf8Size) (some c) back := by
  rw [findAfter?, h]

/-- The first match from a place on is the one of the first place that has one. -/
theorem Matcher.find?_eq (m : Matcher) (front back : List Char) :
    m.find? (.between front back) = (placesFrom front back).findSome? m.matchAt? := by
  unfold find?
  induction back generalizing front with
  | nil =>
    rw [placesFrom, List.findSome?_singleton]
    rfl
  | cons c back ih =>
    have hnext := ih (front ++ [c])
    rw [Place.between_snoc] at hnext
    rw [placesFrom, List.findSome?_cons, ← hnext]
    cases hfound : m.matchAt? (.between front (c :: back)) with
    | none => exact findAfter?_of_none hfound
    | some found => exact findAfter?_of_some hfound

/-- A match at the place itself is the first one. -/
theorem Matcher.find?_of_matchAt? {m : Matcher} {front back : List Char} {found : Match}
    (h : m.matchAt? (.between front back) = some found) :
    m.find? (.between front back) = some found := findAfter?_of_some h

theorem Matcher.first_of_matchAt? {m : Matcher} {p : Place} {found : Match}
    (h : m.matchAt? p = some found) : found.first = p := by
  obtain ⟨s, -, rfl⟩ := Option.map_eq_some_iff.mp h
  rfl

/-- What a scan of a text relies on: a place has at most one match, which starts there, and what is
found from a place on is the match of the first place that has one. -/
structure FindsFirst (find? matchAt? : Place → Option Match) (text : List Char) : Prop where
  first {front back : List Char} {found : Match} : text = front ++ back →
    matchAt? (.between front back) = some found → found.first = .between front back
  finds {front back : List Char} : text = front ++ back →
    find? (.between front back) = (placesFrom front back).findSome? matchAt?

/-- **An overlapped scan finds one match for every place at which there is one.** -/
theorem scanFrom_eq {find? matchAt? : Place → Option Match} {text : List Char}
    (h : FindsFirst find? matchAt? text) {fuel : Nat} (htext : text = front ++ back)
    (hfuel : back.length < fuel) :
    scanFrom find? fuel (.between front back) = (placesFrom front back).filterMap matchAt? := by
  cases fuel with
  | zero => exact absurd hfuel (Nat.not_lt_zero _)
  | succ fuel =>
    induction back generalizing front fuel with
    | nil =>
      unfold scanFrom
      rw [h.finds htext, placesFrom, List.findSome?_singleton, List.filterMap_cons,
        List.filterMap_nil]
      cases hfound : matchAt? (.between front []) with
      | none => rfl
      | some found =>
        simp only [h.first htext hfound]
        rfl
    | cons c back ih =>
      have hbehind : text = (front ++ [c]) ++ back := by rw [htext, List.append_assoc]; rfl
      have hfind := h.finds htext
      rw [placesFrom, List.findSome?_cons] at hfind
      rw [placesFrom, List.filterMap_cons]
      cases hfound : matchAt? (.between front (c :: back)) with
      | none =>
        -- the search goes on to the next place without using up any fuel
        have hskip : find? (.between front (c :: back)) = find? (.between (front ++ [c]) back) := by
          rw [hfind, hfound, h.finds hbehind]
        simp only
        rw [← ih hbehind fuel (by simp at hfuel; omega)]
        unfold scanFrom
        rw [hskip]
      | some found =>
        rw [hfound] at hfind
        unfold scanFrom
        simp only [hfind, h.first htext hfound, Place.next?_between]
        cases fuel with
        | zero => simp at hfuel
        | succ fuel => rw [ih hbehind fuel (by simp at hfuel; omega)]

theorem Matcher.findsFirst (m : Matcher) (text : List Char) :
    FindsFirst m.find? m.matchAt? text where
  first _ := first_of_matchAt?
  finds _ := m.find?_eq _ _

/-- **The overlapped matches of a pattern** are those of all places of the text. -/
theorem matches_overlapped (p : Pattern) (text : List Char) :
    p.finder.matches true text = (placesFrom [] text).filterMap p.matcher.matchAt? :=
  scanFrom_eq (p.matcher.findsFirst text) (List.nil_append text).symm (Nat.lt_succ_self _)

end TaggedText.Pattern
