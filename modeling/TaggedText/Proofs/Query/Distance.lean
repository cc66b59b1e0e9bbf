/-
# What a written distance asks

A text `dist(a, b) op n` is read as one predicate on two columns, however many digits its numerals
have and wherever white space stands.  The predicate asks for two spans with one offset, the second
behind the first, and compares the gap between them with `n`.

Numerals beyond the largest number are read as that number.  A gap is never larger, so this changes
an answer in one place only: where the gap is the largest number itself and the numeral goes beyond
it, four of the six comparisons take the two for equal.  **In this place the answer is the opposite
one, and everywhere else the gap compares so with the numeral as it is written**:
`distance_compares_but_at_largest_number`.
-/
import TaggedText.Proofs.Query.Grammar
import TaggedText.Proofs.Query.Spelling

namespace TaggedText

/-! ## 1. Comparing with a number that is cut off -/

namespace Comparison

/-- What a comparison says of two numbers. -/
def Says : Comparison → Nat → Nat → Prop
  | equal, a, b => a = b
  | notEqual, a, b => a ≠ b
  | greater, a, b => b < a
  | greaterEqual, a, b => b ≤ a
  | less, a, b => a < b
  | lessEqual, a, b => a ≤ b

/-- With numbers beyond `bound` cut off there, a number at the bound cannot be told from one that
goes beyond it.  "More than" and "at most" need not tell them apart. -/
structure CutOff (c : Comparison) (bound a n : Nat) : Prop where
  at_bound : a = bound
  beyond : bound < n
  strict : c ≠ greater ∧ c ≠ lessEqual

theorem holds_iff {c : Comparison} {a b : Nat} : c.holds a b = true ↔ c.Says a b := by
  cases c <;> simp [holds, Says]

instance (c : Comparison) (a b : Nat) : Decidable (c.Says a b) :=
  decidable_of_iff (c.holds a b = true) holds_iff

/-- **Up to the bound a number compares with a larger one as with the bound**, but where it is cut
off. -/
theorem says_min_iff {c : Comparison} {bound a n : Nat} (ha : a ≤ bound)
    (h : ¬c.CutOff bound a n) : c.Says a (min n bound) ↔ c.Says a n := by
  have hcases : n ≤ bound ∨ a < bound ∨ c = greater ∨ c = lessEqual := by
    by_contra hno
    obtain ⟨hn, ha', hg, hl⟩ : ¬n ≤ bound ∧ ¬a < bound ∧ c ≠ greater ∧ c ≠ lessEqual := by
      simpa only [not_or] using hno
    exact h ⟨by omega, by omega, hg, hl⟩
  rcases hcases with hn | hlt | rfl | rfl
  · rw [Nat.min_eq_left hn]
  · cases c <;> simp only [Says] <;> omega
  · simp only [Says]
    omega
  · simp only [Says]
    omega

/-- **Where a number is cut off, the answer is the opposite one.** -/
theorem CutOff.says_min_iff {c : Comparison} {bound a n : Nat} (h : c.CutOff bound a n) :
    c.Says a (min n bound) ↔ ¬c.Says a n := by
  obtain ⟨rfl, hn, hgreater, hlessEqual⟩ := h
  rw [Nat.min_eq_right hn.le]
  cases c with
  | greater => exact absurd rfl hgreater
  | lessEqual => exact absurd rfl hlessEqual
  | equal | notEqual => simp [Says, hn.ne]
  | greaterEqual | less => simp [Says, hn]

end Comparison

namespace Query

/-! ## 2. Reading a written distance -/

/-- **A written distance is cut into its tokens**, whatever white space stands between its
pieces. -/
theorem tokenize_writtenDistance {c : Comparison} {n a b : String} {l : Layout} {last : List Char}
    (hn : isNumeral n = true) (ha : isNumeral a = true) (hb : isNumeral b = true)
    (hpieces : l.pieces = writtenDistance c n a b) (hfits : l.Fits last) :
    tokenize (String.ofList (l.text last)) =
      .ok (distanceTokens c (numeralValue n) (numeralValue a) (numeralValue b)) := by
  have hcut : pieces (l.text last) = .ok ("dist" :: (writtenDistance c n a b).tail) :=
    (pieces_layout (hpieces ▸ isPiece_writtenDistance c hn ha hb) hfits).trans
      (congrArg Except.ok hpieces)
  have hread := readDistance_written c hn ha hb []
  rw [List.append_nil] at hread
  have hend : ∀ fuel, tokensFrom fuel [] = .ok [] := fun fuel => by cases fuel <;> rfl
  rw [tokenize, tokens?, String.toList_ofList, hcut, Except.bind, List.length_cons, tokensFrom,
    if_pos rfl, hread]
  simp [Except.bind, Except.map, Except.mapError, hend]

/-- **A written distance is read as one predicate on its two columns.** -/
theorem read_writtenDistance {v : Expr.Vocabulary} {c : Comparison} {n a b : String} {l : Layout}
    {last : List Char} (hn : isNumeral n = true) (ha : isNumeral a = true)
    (hb : isNumeral b = true) (hcolumns : numeralValue a < v.columns ∧ numeralValue b < v.columns)
    (hpieces : l.pieces = writtenDistance c n a b) (hfits : l.Fits last) :
    Expr.read v (String.ofList (l.text last)) =
      .ok (.leaf (.distance c (numeralValue n)) [numeralValue a, numeralValue b]) := by
  let p : Phrase .operand :=
    .application (.distance c (numeralValue n)) (numeralValue a) [numeralValue b]
  have hallowed : p.Allowed v :=
    ⟨by simpa using hcolumns, fun _ h => (nomatch h), fun _ h => (nomatch h)⟩
  rw [Expr.read, tokenize_writtenDistance hn ha hb hpieces hfits]
  exact p.reads hallowed [] {} []

/-! ## 3. What the predicate answers -/

namespace Predicate

/-- The predicate answers so on a row, whatever the predicates of the user do. -/
def Answers (p : Predicate) (row : Row) (answer : Bool) : Prop :=
  ∀ {m : Type → Type} [Monad m] (judge : Judge m), p.holds judge row = pure answer

theorem answers_distance (c : Comparison) (n : Nat) (row : Row) :
    (distance c n).Answers row (distanceHolds c n row) := fun _ => rfl

theorem distanceHolds_iff {c : Comparison} {n : Nat} {x y : Span} :
    distanceHolds c n [x, y] = true ↔
      x.offset = y.offset ∧ x.stop ≤ y.start ∧ c.Says (y.start - x.stop) n := by
  simp [distanceHolds, Comparison.holds_iff, and_assoc]

end Predicate

/-- **The text `dist(a, b) op n` asks for two spans with one offset, the second behind the first,
whose gap compares so with `n`.**  Any numerals may stand in the text and any white space between
its pieces.  Positions go up to the largest number; where the gap is as wide as that and cannot be
told from an `n` beyond it, the answer is the opposite one. -/
theorem distance_compares_but_at_largest_number {v : Expr.Vocabulary} {c : Comparison}
    {n a b : String} {l : Layout} {last : List Char} (hn : isNumeral n = true)
    (ha : isNumeral a = true) (hb : isNumeral b = true)
    (hcolumns : numeralValue a < v.columns ∧ numeralValue b < v.columns)
    (hpieces : l.pieces = writtenDistance c n a b) (hfits : l.Fits last) :
    ∃ predicate : Predicate,
      Expr.read v (String.ofList (l.text last)) =
        .ok (.leaf predicate [numeralValue a, numeralValue b]) ∧
      ∀ x y : Span, y.start ≤ largestNumber →
        let value := Nat.ofDigitChars 10 n.toList 0
        let gap := y.start - x.stop
        ∃ answer, predicate.Answers [x, y] answer ∧
          (¬c.CutOff largestNumber gap value →
            (answer = true ↔ x.offset = y.offset ∧ x.stop ≤ y.start ∧ c.Says gap value)) ∧
          (c.CutOff largestNumber gap value →
            (answer = true ↔ x.offset = y.offset ∧ x.stop ≤ y.start ∧ ¬c.Says gap value)) := by
  refine ⟨.distance c (numeralValue n), read_writtenDistance hn ha hb hcolumns hpieces hfits,
    fun x y hy => ?_⟩
  intro value gap
  have hgap : gap ≤ largestNumber := (Nat.sub_le _ _).trans hy
  have hanswer : Predicate.distanceHolds c (numeralValue n) [x, y] = true ↔
      x.offset = y.offset ∧ x.stop ≤ y.start ∧ c.Says gap (min value largestNumber) :=
    Predicate.distanceHolds_iff
  refine ⟨_, Predicate.answers_distance c (numeralValue n) [x, y], fun hno => ?_, fun hcut => ?_⟩
  · rw [hanswer, Comparison.says_min_iff hgap hno]
  · rw [hanswer, hcut.says_min_iff]

/-- Columns in the other order, one of them written `00`; a comparison cut in two; and a numeral
with leading zeros that goes beyond the largest number.  Two empty spans at the ends of all
positions are as far apart as spans can be, and are said to be farther. -/
theorem distance_compares_but_at_largest_number_beyond :
    let l : Layout := [([' '], "dist"), ([], "("), (['\t'], "1"), ([' '], ","), ([], "00"),
      ([], ")"), ([], ">"), ([' '], "="), (['\n'], "0018446744073709551616")]
    let x : Span := ⟨0, 0, 7, by decide⟩
    let y : Span := ⟨largestNumber, largestNumber, 7, by decide⟩
    ∃ predicate : Predicate,
      Expr.read ⟨[], 2⟩ (String.ofList (l.text [])) = .ok (.leaf predicate [1, 0]) ∧
        predicate.Answers [x, y] true ∧ predicate.Answers [y, x] false := by
  intro l x y
  have hpieces : l.pieces = writtenDistance .greaterEqual "0018446744073709551616" "1" "00" := by
    decide +kernel
  have hfits : l.Fits [] := ⟨by decide +kernel, by decide, by decide +kernel⟩
  obtain ⟨predicate, hread, hanswers⟩ := distance_compares_but_at_largest_number
    (v := ⟨[], 2⟩) (by decide) (by decide) (by decide) (by decide) hpieces hfits
  obtain ⟨forward, hforward, -, hcut⟩ := hanswers x y (by decide)
  obtain ⟨backward, hbackward, hno, -⟩ := hanswers y x (by decide)
  obtain rfl : forward = true :=
    (hcut ⟨by decide, by decide +kernel, by decide⟩).mpr (by decide +kernel)
  have hmeaning := hno fun hcut => absurd hcut.at_bound (by decide)
  obtain rfl : backward = false :=
    Bool.eq_false_iff.mpr fun htrue => absurd (hmeaning.mp htrue).2.1 (by decide)
  exact ⟨predicate, hread, hforward, hbackward⟩

/-- The widest gap is not 18446744073709551616, but this numeral is read as the width of it. -/
theorem distance_at_largest_number :
    let x : Span := ⟨0, 0, 0, by decide⟩
    let y : Span := ⟨largestNumber, largestNumber, 0, by decide⟩
    ∃ predicate : Predicate,
      Expr.read ⟨[], 2⟩ "dist(0,1) = 18446744073709551616" = .ok (.leaf predicate [0, 1]) ∧
        predicate.Answers [x, y] true ∧ y.start - x.stop ≠ 18446744073709551616 := by
  intro x y
  refine ⟨.distance .equal largestNumber, ?_, ?_, by decide⟩
  · decide +kernel
  · exact Predicate.answers_distance .equal largestNumber [x, y]

end Query

end TaggedText
