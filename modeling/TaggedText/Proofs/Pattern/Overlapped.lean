/-
# What an overlapped scan lists

An overlapped scan goes on one character behind the start of the match it has found.  All that it
relies on is being told of the first match from a place on, so what it lists is said for any way of
finding matches (`FindsFirst`), with bounds of groups that are in order (`OrdersBounds`).  Matchers
keep both promises (`Matcher.findsFirst`, `Matcher.ordersBounds`).  Of an engine it is asked besides
that every text can be looked for (`Engine.FindsLiterals`), as the engine of this library can
(`findsLiterals`).

`overlapped_scan_lists_every_match`: **the scan comes to its end, and lists, in the order of the
places at which matches start, the span of a group for every place that has a match in which the
group takes part.**  For a literal these are all places at which it stands, however they overlap.
-/
import TaggedText.Document
import TaggedText.Proofs.Pattern.Lawful

namespace TaggedText.Pattern

variable {find? matchAt? : Place → Option Match} {text front back w : List Char} {group : Nat}
  {spans : List Span} {a : Span}

/-! ## 1. Scans -/

/-- The bounds of the groups of all matches are in order. -/
def OrdersBounds (matchAt? : Place → Option Match) (text : List Char) : Prop :=
  ∀ front back found group start stop, text = front ++ back →
    matchAt? (.between front back) = some found →
    found.bounds? group = some (start, stop) → start ≤ stop

theorem Matcher.ordersBounds (m : Matcher) (text : List Char) : OrdersBounds m.matchAt? text :=
  fun _ _ _ _ _ _ _ hfound hbounds => ((matchAt?_ordered hfound).bounds hbounds).1

/-- The spans of a group in an overlapped scan of a text. -/
def scannedSpans (find? : Place → Option Match) (group : Nat) (text : List Char) : List Span :=
  (scanFrom find? (text.length + 1) (Place.start text)).filterMap (Match.span? group)

theorem spans_overlapped (f : Finder) (group : Nat) (text : List Char) :
    f.spans group true text = scannedSpans (f.find? text) group text := rfl

/-- The spans of a group in the matches of a text: one for every place of the text that has a match
in which the group takes part, in the order of these places. -/
def ListsEveryMatch (matchAt? : Place → Option Match) (group : Nat) (text : List Char)
    (spans : List Span) : Prop :=
  ∃ found : List (Match × Span), spans = found.map Prod.snd ∧
    found.Pairwise (fun x y => x.1.first.position < y.1.first.position) ∧
    ∀ m a, (m, a) ∈ found ↔
      (∃ front back, text = front ++ back ∧ matchAt? (.between front back) = some m) ∧
      m.bounds? group = some (a.start, a.stop) ∧ a.offset = 0

theorem span?_eq_some_iff {found : Match} (hle : ∀ start stop,
    found.bounds? group = some (start, stop) → start ≤ stop) :
    found.span? group = some a ↔ found.bounds? group = some (a.start, a.stop) ∧ a.offset = 0 := by
  cases hbounds : found.bounds? group with
  | none => simp [Match.span?, hbounds]
  | some bounds =>
    obtain ⟨start, stop⟩ := bounds
    have hspan : found.span? group = some ⟨start, stop, 0, hle start stop hbounds⟩ := by
      rw [Match.span?, hbounds]
      exact dif_pos (hle start stop hbounds)
    rw [hspan, Option.some_inj, Option.some_inj, Prod.mk.injEq]
    constructor
    · rintro rfl
      exact ⟨⟨rfl, rfl⟩, rfl⟩
    · obtain ⟨start', stop', offset, -⟩ := a
      rintro ⟨⟨rfl, rfl⟩, rfl⟩
      rfl

theorem scanFrom_start (hfind : FindsFirst find? matchAt? text) {fuel : Nat}
    (hfuel : text.length < fuel) :
    scanFrom find? fuel (Place.start text) = (placesFrom [] text).filterMap matchAt? :=
  scanFrom_eq hfind (List.nil_append text).symm hfuel

theorem mem_placesFrom_nil {p : Place} :
    p ∈ placesFrom [] text ↔ ∃ front back, text = front ++ back ∧ p = .between front back := by
  rw [mem_placesFrom]
  rfl

/-- The match at a place, with the span of a group that takes part in it. -/
def matchWithSpan? (matchAt? : Place → Option Match) (group : Nat) (p : Place) :
    Option (Match × Span) :=
  (matchAt? p).bind fun m => (m.span? group).map fun a => (m, a)

theorem matchWithSpan?_eq_some_iff {p : Place} {m : Match} :
    matchWithSpan? matchAt? group p = some (m, a) ↔
      matchAt? p = some m ∧ m.span? group = some a := by
  simp only [matchWithSpan?, Option.bind_eq_some_iff, Option.map_eq_some_iff, Prod.mk.injEq]
  constructor
  · rintro ⟨m', hm, a', ha, rfl, rfl⟩
    exact ⟨hm, ha⟩
  · rintro ⟨hm, ha⟩
    exact ⟨m, hm, a, ha, rfl, rfl⟩

theorem map_snd_matchWithSpan? (p : Place) :
    (matchWithSpan? matchAt? group p).map Prod.snd = (matchAt? p).bind (Match.span? group) := by
  simp only [matchWithSpan?, Option.map_bind]
  congr 1
  funext m
  simp [Function.comp_def]

/-- **A scan lists the span of a group for every place that has a match in which the group takes
part.** -/
theorem listsEveryMatch_scannedSpans (hfind : FindsFirst find? matchAt? text)
    (hbounds : OrdersBounds matchAt? text) (group : Nat) :
    ListsEveryMatch matchAt? group text (scannedSpans find? group text) := by
  refine ⟨(placesFrom [] text).filterMap (matchWithSpan? matchAt? group), ?_, ?_, ?_⟩
  · rw [scannedSpans, scanFrom_start hfind (Nat.lt_succ_self _), List.filterMap_filterMap,
      List.map_filterMap]
    exact congrArg (List.filterMap · _) (funext fun p => (map_snd_matchWithSpan? p).symm)
  · rw [List.pairwise_filterMap]
    refine (pairwise_placesFrom [] text).imp_of_mem ?_
    rintro p q hp hq hlt ⟨m, a⟩ hm ⟨m', a'⟩ hm'
    obtain ⟨front, back, htext, rfl⟩ := mem_placesFrom_nil.mp hp
    obtain ⟨front', back', htext', rfl⟩ := mem_placesFrom_nil.mp hq
    -- a match starts at the place that has it
    rw [hfind.first htext (matchWithSpan?_eq_some_iff.mp hm).1,
      hfind.first htext' (matchWithSpan?_eq_some_iff.mp hm').1]
    exact hlt
  · intro m a
    simp only [List.mem_filterMap, matchWithSpan?_eq_some_iff, mem_placesFrom_nil]
    constructor
    · rintro ⟨p, ⟨front, back, htext, rfl⟩, hm, ha⟩
      have hle := fun start stop => hbounds front back m group start stop htext hm
      exact ⟨⟨front, back, htext, hm⟩, (span?_eq_some_iff hle).mp ha⟩
    · rintro ⟨⟨front, back, htext, hm⟩, ha⟩
      have hle := fun start stop => hbounds front back m group start stop htext hm
      exact ⟨_, ⟨front, back, htext, rfl⟩, hm, (span?_eq_some_iff hle).mpr ha⟩

/-! ## 2. Literals -/

/-- The match of a piece of a text. -/
def matchOf (front piece back : List Char) : Match :=
  ⟨.between front (piece ++ back), .between (front ++ piece) back, []⟩

/-- Of what is made of a text that stands for itself: the first match from a place on is that of the
first place at which the text stands. -/
def Finder.FindsText (f : Finder) (w text : List Char) : Prop :=
  ∃ matchAt?, FindsFirst (f.find? text) matchAt? text ∧
    ∀ front back found, text = front ++ back →
      (matchAt? (.between front back) = some found ↔
        ∃ rest, back = w ++ rest ∧ found = matchOf front w rest)

/-- Every text can be looked for, and is found. -/
def Engine.FindsLiterals [Engine] : Prop :=
  ∀ w, ∃ f, literal? w = some f ∧ ∀ text, f.FindsText w text

theorem bounds?_matchOf : (matchOf front w back).bounds? 0 = some (a.start, a.stop) ∧ a.offset = 0 ↔
    a = spanOf front w := by
  change some (Text.width front, Text.width (front ++ w)) = some (a.start, a.stop) ∧ _ ↔ _
  rw [Text.width_append, Option.some_inj, Prod.mk.injEq]
  constructor
  · obtain ⟨start, stop, offset, -⟩ := a
    rintro ⟨⟨rfl, rfl⟩, rfl⟩
    rfl
  · rintro rfl
    exact ⟨⟨rfl, rfl⟩, rfl⟩

/-- A piece of a text takes no part in any other group. -/
theorem ordersBounds_of_matchOf (h : ∀ front back found, text = front ++ back →
    matchAt? (.between front back) = some found →
      ∃ rest, back = w ++ rest ∧ found = matchOf front w rest) : OrdersBounds matchAt? text := by
  intro front back found group start stop htext hfound hbounds
  obtain ⟨rest, -, rfl⟩ := h front back found htext hfound
  unfold Match.bounds? at hbounds
  split at hbounds
  · cases hbounds
    simp only [matchOf, Place.between, Text.width_append]
    omega
  · cases hbounds

/-- **A text that is looked for is found at every place at which it stands.** -/
theorem Finder.FindsText.mem_spans {f : Finder} (h : f.FindsText w text) :
    (f.spans 0 true text).Pairwise (fun a b => a.start < b.start) ∧
      ∀ a, a ∈ f.spans 0 true text ↔
        ∃ front back, text = front ++ (w ++ back) ∧ a = spanOf front w := by
  obtain ⟨matchAt?, hfind, hmatch⟩ := h
  obtain ⟨found, hspans, horder, hfound⟩ := listsEveryMatch_scannedSpans hfind
    (ordersBounds_of_matchOf fun front back m htext => (hmatch front back m htext).mp) 0
  have hstart (m : Match) (a : Span) (hm : (m, a) ∈ found) : m.first.position = a.start := by
    obtain ⟨-, hbounds, -⟩ := (hfound m a).mp hm
    exact congrArg Prod.fst (Option.some.inj hbounds)
  rw [spans_overlapped, hspans]
  constructor
  · refine List.pairwise_map.mpr (horder.imp_of_mem ?_)
    rintro ⟨m, a⟩ ⟨m', a'⟩ hm hm' hlt
    rw [← hstart m a hm, ← hstart m' a' hm']
    exact hlt
  · intro a
    constructor
    · intro ha
      obtain ⟨⟨m, _⟩, hm, rfl⟩ := List.mem_map.mp ha
      obtain ⟨⟨front, back, htext, hplace⟩, hbounds⟩ := (hfound _ _).mp hm
      obtain ⟨back, rfl, rfl⟩ := (hmatch front _ _ htext).mp hplace
      exact ⟨front, back, htext, bounds?_matchOf.mp hbounds⟩
    · rintro ⟨front, back, htext, rfl⟩
      have hplace : matchAt? (.between front (w ++ back)) = some (matchOf front w back) :=
        (hmatch front _ _ htext).mpr ⟨back, rfl, rfl⟩
      exact List.mem_map.mpr ⟨(matchOf front w back, spanOf front w), (hfound _ _).mpr
        ⟨⟨front, w ++ back, htext, hplace⟩, bounds?_matchOf.mpr rfl⟩, rfl⟩

/-! ## 3. The pattern of a literal -/

/-- The ways through one character and a matcher. -/
theorem ways_seq_one {c d : Char} {m : Matcher} {s : Progress}
    (hs : s.place = .between front (d :: back)) :
    (Matcher.seq (.one (.single c)) m).ways s = if c = d then
      m.ways { s with place := .between (front ++ [c]) back, passed := [] } else [] := by
  rw [Matcher.ways_seq, ways_one hs, CharSet.contains_single]
  by_cases hc : c = d
  · subst hc
    simp
  · simp [hc]

/-- Where a literal stands there is one way through its pattern, to the end of it. -/
theorem ways_literal {s : Progress} (next : Nat) (hs : s.place = .between front (w ++ back)) :
    ∃ passed, (matcherFrom false (literal w) next).1.ways s =
      [{ s with place := .between (front ++ w) back, passed := passed }] := by
  fun_induction literal w generalizing front s next with
  | case1 =>
    refine ⟨s.passed, ?_⟩
    rw [List.append_nil, ← List.nil_append back, ← hs]
    rfl
  | case2 c => exact ⟨[], (ways_one hs).trans (by simp)⟩
  | case3 c rest hne ih =>
    rw [List.cons_append] at hs
    obtain ⟨passed, hways⟩ : ∃ passed, (matcherFrom false (literal rest) next).1.ways
        { s with place := .between (front ++ [c]) (rest ++ back), passed := [] } =
          [{ s with place := .between (front ++ [c] ++ rest) back, passed := passed }] :=
      ih next rfl
    refine ⟨passed, ?_⟩
    change (Matcher.seq (.one (.single c)) (matcherFrom false (literal rest) next).1).ways s = _
    rw [ways_seq_one hs, if_pos rfl, hways, List.append_assoc]
    rfl

theorem ways_literal_eq_nil {s : Progress} (next : Nat) (hs : s.place = .between front back)
    (hw : ∀ rest, back ≠ w ++ rest) : (matcherFrom false (literal w) next).1.ways s = [] := by
  fun_induction literal w generalizing front back s next with
  | case1 => exact absurd rfl (hw back)
  | case2 c =>
    refine ways_one_eq_nil hs fun d hd => ?_
    obtain ⟨rest, rfl⟩ := List.head?_eq_some_iff.mp hd
    rw [CharSet.contains_single, beq_eq_false_iff_ne]
    rintro rfl
    exact hw rest rfl
  | case3 c rest hne ih =>
    change (Matcher.seq (.one (.single c)) (matcherFrom false (literal rest) next).1).ways s = []
    cases back with
    | nil => rw [Matcher.ways_seq, ways_one_nil hs, List.flatMap_nil]
    | cons d back =>
      rw [ways_seq_one hs]
      split
      · next hc =>
        subst hc
        refine ih next rfl fun more hmore => hw more ?_
        rw [hmore]
        rfl
      · rfl

theorem matchAt?_literal_eq_some_iff {m : Match} :
    (literal w).matcher.matchAt? (.between front back) = some m ↔
      ∃ rest, back = w ++ rest ∧ m = matchOf front w rest := by
  rw [Matcher.matchAt?_eq, matcher]
  by_cases hw : ∃ rest, back = w ++ rest
  · obtain ⟨rest, rfl⟩ := hw
    obtain ⟨passed, hways⟩ := ways_literal 0
      (rfl : Progress.place ⟨.between front (w ++ rest), [], []⟩ = .between front (w ++ rest))
    rw [hways]
    simp [matchOf, eq_comm]
  · have hnone : ∀ rest, back ≠ w ++ rest := fun rest hrest => hw ⟨rest, hrest⟩
    rw [ways_literal_eq_nil 0 rfl hnone]
    simp [hnone]

/-- **The pattern of a literal finds it** wherever it stands. -/
theorem findsText_literal (w text : List Char) : (literal w).finder.FindsText w text :=
  ⟨(literal w).matcher.matchAt?, (literal w).matcher.findsFirst text,
    fun _ _ _ _ => matchAt?_literal_eq_some_iff⟩

theorem findsLiterals : Engine.FindsLiterals :=
  fun w => ⟨(literal w).finder, rfl, findsText_literal w⟩

/-! ## 4. Every match -/

/-- **An overlapped scan lists every match.**  However matches are found, as long as it is the first
one from a place on and its bounds are in order, the scan ends within as many rounds as the text has
places, and lists the span of a group for each place that has a match in which the group takes part.
The matchers of patterns find them so.  Of a literal every occurrence is listed, whatever engine it
is given to, as long as that one can look for any text; and the engine of this library can. -/
theorem overlapped_scan_lists_every_match (text : List Char) (group : Nat) :
    (∀ find? matchAt?, FindsFirst find? matchAt? text → OrdersBounds matchAt? text →
      (∀ fuel, text.length < fuel → scanFrom find? fuel (Place.start text) =
        scanFrom find? (text.length + 1) (Place.start text)) ∧
      ListsEveryMatch matchAt? group text (scannedSpans find? group text)) ∧
    (∀ p : Pattern, FindsFirst p.matcher.find? p.matcher.matchAt? text ∧
      OrdersBounds p.matcher.matchAt? text ∧
      p.spans group true text = scannedSpans p.matcher.find? group text ∧
      ListsEveryMatch p.matcher.matchAt? group text (p.spans group true text)) ∧
    (∀ [Engine], Engine.FindsLiterals → ∀ (d : Document) (w : String), d.text = text →
      ((d.spansOf true (.literal w)).Pairwise fun a b => a.start < b.start) ∧
      ∀ a, a ∈ d.spansOf true (.literal w) ↔
        ∃ front back, text = front ++ (w.toList ++ back) ∧ a = spanOf front w.toList) ∧
    Engine.FindsLiterals := by
  refine ⟨?_, ?_, ?_, findsLiterals⟩
  · intro find? matchAt? hfind hbounds
    refine ⟨fun fuel hfuel => ?_, listsEveryMatch_scannedSpans hfind hbounds group⟩
    rw [scanFrom_start hfind hfuel, scanFrom_start hfind (Nat.lt_succ_self _)]
  · intro p
    have hfind := p.matcher.findsFirst text
    have hbounds := p.matcher.ordersBounds text
    exact ⟨hfind, hbounds, spans_overlapped p.finder group text,
      listsEveryMatch_scannedSpans hfind hbounds group⟩
  · rintro _ hliterals d w rfl
    obtain ⟨f, hliteral, hfinds⟩ := hliterals w.toList
    have hspans : d.spansOf true (.literal w) = f.spans 0 true d.text := by
      simp only [Document.spansOf, hliteral]
    rw [hspans]
    exact (hfinds d.text).mem_spans

/-- Matches with and without the group, an empty one at the end of the text, and a character of two
bytes; and a literal that overlaps itself. -/
theorem overlapped_scan_lists_every_match_optional :
    let p : Pattern :=
      .choice (.group 1 (.one (.single 'é'))) (.rounds true 0 (some 1) (.one (.single 'a')))
    let text := "aéa".toList
    read? "(é)|a?".toList = some p ∧
      p.spans 0 true text = [⟨0, 1, 0, by decide⟩, ⟨1, 3, 0, by decide⟩, ⟨3, 4, 0, by decide⟩,
        ⟨4, 4, 0, by decide⟩] ∧
      FindsFirst p.matcher.find? p.matcher.matchAt? text ∧
      OrdersBounds p.matcher.matchAt? text ∧
      ListsEveryMatch p.matcher.matchAt? 1 text [⟨1, 3, 0, by decide⟩] ∧
      (⟨2, 6, 0, by decide⟩ : Span) ∈
        (⟨"éééa".toList, []⟩ : Document).spansOf true (.literal "éé") := by
  intro p text
  obtain ⟨hany, -, -, -⟩ := overlapped_scan_lists_every_match text 1
  obtain ⟨-, -, hliteral, hengine⟩ := overlapped_scan_lists_every_match "éééa".toList 0
  have hfind := p.matcher.findsFirst text
  have hbounds := p.matcher.ordersBounds text
  refine ⟨rfl, rfl, hfind, hbounds, (hany _ _ hfind hbounds).2, ?_⟩
  exact ((hliteral hengine ⟨"éééa".toList, []⟩ "éé" rfl).2 _).mpr ⟨['é'], ['a'], rfl, rfl⟩

end TaggedText.Pattern
