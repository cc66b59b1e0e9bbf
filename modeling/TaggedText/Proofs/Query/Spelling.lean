/-
# Writing tokens down

A list of tokens is printable if every distance in it goes before its two columns in parentheses,
and every other token is one that a text can hold.  Spelling puts a distance behind its columns
again and gives all pieces of the text; white space is a matter of layout.

**Cutting a text into tokens undoes spelling and layout**, and gives printable lists only:
`tokenize_undoes_printing`.  A piece is looked at by itself (`tokenOf_text`, `proper_tokenOf`)
except for distances, which are read as a whole (`readDistance_spelling`, `readDistance_inv`).
-/
import TaggedText.Proofs.Query.Pieces

namespace TaggedText.Query

open Text (isWord isBlank allBlank)

/-! ## 1. Printable tokens -/

/-- A token that stands for something in a text: names are words other than numerals and the words
of the language, numbers are in range, symbols are those of comparisons. -/
def Token.Proper : Token → Prop
  | .name word => isWordPiece word = true ∧ word ∉ ["dist", "and", "or"] ∧ isNumeral word = false
  | .number n => n ≤ largestNumber
  | .distance _ n => n ≤ largestNumber
  | .symbol c => c ∈ ['<', '>', '=', '!']
  | .opening | .closing | .comma | .conjunction | .disjunction => True

/-- **A list of tokens that a text can be made of.** -/
structure Printable (tokens : List Token) : Prop where
  proper : ∀ t ∈ tokens, t.Proper
  distances : ∀ comparison n behind, .distance comparison n :: behind <:+ tokens →
    ∃ a b, [.opening, .number a, .comma, .number b, .closing] <+: behind

/-- The tokens of a distance. -/
def distanceTokens (comparison : Comparison) (n a b : Nat) : List Token :=
  [.distance comparison n, .opening, .number a, .comma, .number b, .closing]

theorem printable_nil : Printable [] := ⟨by simp, by simp⟩

theorem Printable.drop (front : List Token) {tokens : List Token} (h : Printable (front ++ tokens)) :
    Printable tokens :=
  ⟨fun u hu => h.proper u (List.mem_append_right _ hu), fun c n behind hs =>
    h.distances c n behind (hs.trans (List.suffix_append front tokens))⟩

theorem Printable.cons {t : Token} {tokens : List Token} (ht : t.Proper)
    (hno : ∀ comparison n, t ≠ .distance comparison n) (h : Printable tokens) :
    Printable (t :: tokens) := by
  refine ⟨List.forall_mem_cons.mpr ⟨ht, h.proper⟩, fun c n behind hs => ?_⟩
  rcases List.suffix_cons_iff.mp hs with heq | hs
  · exact absurd (List.cons.inj heq).1.symm (hno c n)
  · exact h.distances c n behind hs

theorem Printable.distance {comparison : Comparison} {n a b : Nat} {tokens : List Token}
    (hn : n ≤ largestNumber) (ha : a ≤ largestNumber) (hb : b ≤ largestNumber)
    (h : Printable tokens) : Printable (distanceTokens comparison n a b ++ tokens) := by
  have hcolumns : Printable ([.opening, .number a, .comma, .number b, .closing] ++ tokens) :=
    .cons trivial (by simp) (.cons ha (by simp) (.cons trivial (by simp)
      (.cons hb (by simp) (.cons trivial (by simp) h))))
  refine ⟨List.forall_mem_cons.mpr ⟨hn, hcolumns.proper⟩, fun c m behind hs => ?_⟩
  rcases List.suffix_cons_iff.mp hs with heq | hs
  · obtain rfl := (List.cons.inj heq).2
    exact ⟨a, b, List.prefix_append ..⟩
  · exact hcolumns.distances c m behind hs

/-- **Printable tokens are distances and single tokens**, one behind the other. -/
theorem Printable.induct {P : List Token → Prop} (nil : P [])
    (distance : ∀ comparison n a b rest, n ≤ largestNumber → a ≤ largestNumber →
      b ≤ largestNumber → P rest → P (distanceTokens comparison n a b ++ rest))
    (token : ∀ t rest, t.Proper → (∀ comparison n, t ≠ .distance comparison n) → P rest →
      P (t :: rest)) : ∀ tokens, Printable tokens → P tokens
  | [], _ => nil
  | t :: behind, h => by
    by_cases ht : ∃ comparison n, t = .distance comparison n
    · obtain ⟨comparison, n, rfl⟩ := ht
      obtain ⟨a, b, rest, rfl⟩ := h.distances comparison n behind (List.suffix_refl _)
      have hrest : Printable rest := h.drop (distanceTokens comparison n a b)
      exact distance comparison n a b rest (h.proper (.distance comparison n) (by simp))
        (h.proper (.number a) (by simp)) (h.proper (.number b) (by simp))
        (induct nil distance token rest hrest)
    · exact token t behind (h.proper t List.mem_cons_self)
        (fun comparison n heq => ht ⟨comparison, n, heq⟩)
        (induct nil distance token behind (h.drop [t]))
termination_by tokens => tokens.length

/-! ## 2. Spelling -/

/-- The pieces of a comparison, one for each character. -/
def comparisonPieces (comparison : Comparison) : List String :=
  comparison.symbol.toList.map String.singleton

/-- The pieces of a distance. -/
def distancePieces (comparison : Comparison) (n a b : Nat) : List String :=
  ["dist", "(", a.repr, ",", b.repr, ")"] ++ comparisonPieces comparison ++ [n.repr]

/-- The pieces of a distance that is written with these numerals for its number and its columns. -/
def writtenDistance (comparison : Comparison) (n a b : String) : List String :=
  ["dist", "(", a, ",", b, ")"] ++ comparisonPieces comparison ++ [n]

/-- **The pieces that tokens are written with**: each token by its text, a distance with its
columns. -/
def spelling : List Token → List String
  | .distance comparison n :: .opening :: .number a :: .comma :: .number b :: .closing :: rest =>
    distancePieces comparison n a b ++ spelling rest
  | t :: rest => t.text :: spelling rest
  | [] => []

theorem isNumeral_repr (n : Nat) : isNumeral n.repr = true := by
  have hdigits : ∀ c ∈ Nat.toDigits 10 n, c.isDigit = true := fun c hc =>
    Nat.isDigit_of_mem_toDigits (by decide) (by decide) hc
  have hne : n.repr ≠ "" := by simp [← String.toList_inj, Nat.toList_repr, Nat.toDigits_ne_nil]
  simpa [isNumeral, Nat.toList_repr, hne] using hdigits

theorem numeralValue_repr {n : Nat} (h : n ≤ largestNumber) : numeralValue n.repr = n := by
  have hvalue : decimalValue n.repr.toList = n := by
    rw [Nat.toList_repr]
    exact Nat.ofDigitChars_toDigits (by decide) (by decide)
  rw [numeralValue, hvalue, Nat.min_eq_left h]

theorem isWordPiece_of_isNumeral {piece : String} (h : isNumeral piece = true) :
    isWordPiece piece = true := by
  obtain ⟨hne, hall⟩ : piece ≠ "" ∧ ∀ c ∈ piece.toList, c.isDigit = true := by
    simpa [isNumeral] using h
  simpa [isWordPiece, hne] using fun c hc => isWord_of_isDigit (hall c hc)

theorem repr_ne {piece : String} (h : isNumeral piece = false) (n : Nat) : n.repr ≠ piece := by
  rintro rfl
  simp [isNumeral_repr] at h

theorem spelling_distance (comparison : Comparison) (n a b : Nat) (rest : List Token) :
    spelling (distanceTokens comparison n a b ++ rest) =
      distancePieces comparison n a b ++ spelling rest := rfl

theorem spelling_cons {t : Token} (hno : ∀ comparison n, t ≠ .distance comparison n)
    (rest : List Token) : spelling (t :: rest) = t.text :: spelling rest := by
  rw [spelling]
  exact fun comparison n _ _ _ ht => absurd ht (hno comparison n)

/-! ## 3. Pieces of tokens -/

theorem isPiece_of_isNumeral {piece : String} (h : isNumeral piece = true) : IsPiece piece :=
  .inl (isWordPiece_of_isNumeral h)

theorem isPiece_of_delimiter {piece : String} (c : Char) (h : isDelimiter c = true)
    (hpiece : piece = String.singleton c) : IsPiece piece :=
  .inr ⟨c, h, hpiece⟩

theorem isPiece_comparisonPieces (comparison : Comparison) :
    ∀ p ∈ comparisonPieces comparison, IsPiece p := by
  have hchars : ∀ c ∈ comparison.symbol.toList, isDelimiter c = true := by
    cases comparison <;> exact List.all_eq_true.mp (by decide)
  intro p hp
  obtain ⟨c, hc, rfl⟩ := List.mem_map.mp hp
  exact isPiece_of_delimiter c (hchars c hc) rfl

theorem isPiece_writtenDistance (comparison : Comparison) {n a b : String}
    (hn : isNumeral n = true) (ha : isNumeral a = true) (hb : isNumeral b = true) :
    ∀ p ∈ writtenDistance comparison n a b, IsPiece p := by
  have hword : IsPiece "dist" := .inl (by decide +kernel)
  have hopening : IsPiece "(" := isPiece_of_delimiter '(' (by decide) rfl
  have hcomma : IsPiece "," := isPiece_of_delimiter ',' (by decide) rfl
  have hclosing : IsPiece ")" := isPiece_of_delimiter ')' (by decide) rfl
  simp only [writtenDistance, List.forall_mem_append, List.forall_mem_cons, List.not_mem_nil,
    false_implies, implies_true, and_true]
  exact ⟨⟨⟨hword, hopening, isPiece_of_isNumeral ha, hcomma, isPiece_of_isNumeral hb, hclosing⟩,
    isPiece_comparisonPieces comparison⟩, isPiece_of_isNumeral hn⟩

theorem isPiece_distancePieces (comparison : Comparison) (n a b : Nat) :
    ∀ p ∈ distancePieces comparison n a b, IsPiece p :=
  isPiece_writtenDistance comparison (isNumeral_repr n) (isNumeral_repr a) (isNumeral_repr b)

theorem isPiece_text {t : Token} (ht : t.Proper) (hno : ∀ comparison n, t ≠ .distance comparison n) :
    IsPiece t.text := by
  cases t with
  | name word => exact .inl ht.1
  | number n => exact isPiece_of_isNumeral (isNumeral_repr n)
  | opening => exact isPiece_of_delimiter '(' (by decide) rfl
  | closing => exact isPiece_of_delimiter ')' (by decide) rfl
  | comma => exact isPiece_of_delimiter ',' (by decide) rfl
  | conjunction => exact .inl (by decide +kernel)
  | disjunction => exact .inl (by decide +kernel)
  | distance comparison n => exact absurd rfl (hno comparison n)
  | symbol c =>
    have hmem : c ∈ ['<', '>', '=', '!'] := ht
    fin_cases hmem <;> exact isPiece_of_delimiter _ (by decide) rfl

/-- **Spelling gives pieces.** -/
theorem isPiece_spelling : ∀ tokens, Printable tokens → ∀ p ∈ spelling tokens, IsPiece p := by
  refine Printable.induct (by simp [spelling]) ?distance ?token
  case distance =>
    intro comparison n a b rest _ _ _ hrest
    rw [spelling_distance]
    exact List.forall_mem_append.mpr ⟨isPiece_distancePieces comparison n a b, hrest⟩
  case token =>
    intro t rest ht hno hrest
    rw [spelling_cons hno]
    exact List.forall_mem_cons.mpr ⟨isPiece_text ht hno, hrest⟩

/-! ## 4. Tokens of pieces -/

/-- The pieces that are a token of their own, other than names and numbers. -/
def fixedPieces : List String := ["(", ")", ",", "and", "or", "<", ">", "=", "!"]

theorem tokenOf_of_notMem {piece : String} (h : piece ∉ fixedPieces) :
    tokenOf piece = if isNumeral piece then .number (numeralValue piece) else .name piece := by
  simp only [fixedPieces, List.mem_cons, List.not_mem_nil, or_false, not_or] at h
  simp [tokenOf, h]

theorem mem_fixedPieces_of_isDelimiter {c : Char} (h : isDelimiter c = true) :
    String.singleton c ∈ fixedPieces := by
  have hmem := mem_of_isDelimiter h
  fin_cases hmem <;> decide

theorem isNumeral_of_mem_fixedPieces : ∀ p ∈ fixedPieces, isNumeral p = false := by decide

/-- **The token of a token's text is the token.** -/
theorem tokenOf_text {t : Token} (ht : t.Proper) (hno : ∀ comparison n, t ≠ .distance comparison n) :
    tokenOf t.text = t := by
  cases t with
  | name word =>
    obtain ⟨hword, hnot, hnumeral⟩ := ht
    have hfixed : ∀ p ∈ fixedPieces, isWordPiece p = false ∨ p ∈ ["dist", "and", "or"] := by
      decide +kernel
    have hout : word ∉ fixedPieces := fun hmem => by
      rcases hfixed word hmem with hno | hin
      · simp [hno] at hword
      · exact hnot hin
    rw [Token.text, tokenOf_of_notMem hout, hnumeral]
    rfl
  | number n =>
    have hout : n.repr ∉ fixedPieces := fun hmem => by
      have hnot := isNumeral_of_mem_fixedPieces _ hmem
      simp [isNumeral_repr] at hnot
    rw [Token.text, tokenOf_of_notMem hout, if_pos (isNumeral_repr n), numeralValue_repr ht]
  | distance comparison n => exact absurd rfl (hno comparison n)
  | symbol c =>
    have hmem : c ∈ ['<', '>', '=', '!'] := ht
    fin_cases hmem <;> decide
  | _ => decide

/-- The text of a token is not taken for the beginning of a distance. -/
theorem text_ne_dist {t : Token} (ht : t.Proper) (hno : ∀ comparison n, t ≠ .distance comparison n) :
    t.text ≠ "dist" := by
  cases t with
  | name word =>
    rintro rfl
    exact ht.2.1 List.mem_cons_self
  | number n => exact repr_ne (by decide) n
  | distance comparison n => exact absurd rfl (hno comparison n)
  | symbol c =>
    have hmem : c ∈ ['<', '>', '=', '!'] := ht
    fin_cases hmem <;> decide
  | _ => decide

/-- **The token of a piece outside of a distance is one that a text can hold.** -/
theorem proper_tokenOf {piece : String} (hpiece : IsPiece piece) (hdist : piece ≠ "dist") :
    (tokenOf piece).Proper ∧ ∀ comparison n, tokenOf piece ≠ .distance comparison n := by
  by_cases hfixed : piece ∈ fixedPieces
  · simp only [fixedPieces, List.mem_cons, List.not_mem_nil, or_false] at hfixed
    rcases hfixed with rfl | rfl | rfl | rfl | rfl | rfl | rfl | rfl | rfl <;>
      simp [tokenOf, Token.Proper]
  · rw [tokenOf_of_notMem hfixed]
    have hword : isWordPiece piece = true := by
      rcases hpiece with hword | ⟨c, hc, rfl⟩
      · exact hword
      · exact absurd (mem_fixedPieces_of_isDelimiter hc) hfixed
    have hnot : piece ∉ ["dist", "and", "or"] := by
      simp only [fixedPieces, List.mem_cons, not_or] at hfixed
      simp [hdist, hfixed]
    split
    · exact ⟨Nat.min_le_right _ _, by simp⟩
    · next hnumeral => exact ⟨⟨hword, hnot, by simpa using hnumeral⟩, by simp⟩

/-! ## 5. Distances -/

theorem comparison_spelling (c : Comparison) {piece : String} (hpiece : isNumeral piece = true)
    (rest : List String) :
    comparison (comparisonPieces c ++ piece :: rest) = .ok (c.symbol, piece, rest) := by
  have hne : piece ≠ "=" := by
    rintro rfl
    simp [isNumeral] at hpiece
  cases c <;> simp [comparison, comparisonPieces, Comparison.symbol, nextPiece, bind, Except.bind,
    pure, Except.pure, hne]

/-- **The pieces of a distance are read as its tokens**, whatever numerals it is written with. -/
theorem readDistance_written (c : Comparison) {n a b : String} (hn : isNumeral n = true)
    (ha : isNumeral a = true) (hb : isNumeral b = true) (rest : List String) :
    readDistance ((writtenDistance c n a b).tail ++ rest) =
      .ok (distanceTokens c (numeralValue n) (numeralValue a) (numeralValue b), rest) := by
  have hcomparison := comparison_spelling c hn rest
  simp [readDistance, writtenDistance, delimiter, column, nextPiece, bind, Except.bind, pure,
    Except.pure, hn, ha, hb, hcomparison, Comparison.ofSymbol?_symbol, distanceTokens]

theorem readDistance_spelling {c : Comparison} {n a b : Nat} (hn : n ≤ largestNumber)
    (ha : a ≤ largestNumber) (hb : b ≤ largestNumber) (rest : List String) :
    readDistance ((distancePieces c n a b).tail ++ rest) = .ok (distanceTokens c n a b, rest) := by
  have hread := readDistance_written c (isNumeral_repr n) (isNumeral_repr a) (isNumeral_repr b) rest
  rwa [numeralValue_repr hn, numeralValue_repr ha, numeralValue_repr hb] at hread

theorem nextPiece_eq_ok {what piece : String} {ps rest : List String}
    (h : nextPiece what ps = .ok (piece, rest)) : ps = piece :: rest := by
  cases ps with
  | nil => cases h
  | cons first ps =>
    cases h
    rfl

theorem delimiter_suffix {expected : String} {ps rest : List String}
    (h : delimiter expected ps = .ok rest) : rest <:+ ps := by
  rw [delimiter] at h
  obtain ⟨⟨piece, behind⟩, hpiece, h⟩ := exists_of_bind_ok h
  dsimp only at h
  rw [nextPiece_eq_ok hpiece]
  split at h
  · cases h
    exact List.suffix_cons piece rest
  · cases h

theorem column_suffix {ps rest : List String} {n : Nat} (h : column ps = .ok (n, rest)) :
    n ≤ largestNumber ∧ rest <:+ ps := by
  rw [column] at h
  obtain ⟨⟨piece, behind⟩, hpiece, h⟩ := exists_of_bind_ok h
  dsimp only at h
  rw [nextPiece_eq_ok hpiece]
  split at h
  · cases h
    exact ⟨Nat.min_le_right _ _, List.suffix_cons piece rest⟩
  · cases h

theorem comparison_suffix {ps rest : List String} {symbol piece : String}
    (h : comparison ps = .ok (symbol, piece, rest)) : rest <:+ ps := by
  rw [comparison] at h
  obtain ⟨⟨first, behindFirst⟩, hfirst, h⟩ := exists_of_bind_ok h
  obtain ⟨⟨second, behindSecond⟩, hsecond, h⟩ := exists_of_bind_ok h
  dsimp only at h
  rw [nextPiece_eq_ok hfirst, nextPiece_eq_ok hsecond]
  split at h
  · obtain ⟨⟨third, behindThird⟩, hthird, h⟩ := exists_of_bind_ok h
    cases h
    rw [nextPiece_eq_ok hthird]
    exact ⟨[first, second, third], rfl⟩
  · cases h
    exact ⟨[symbol, piece], rfl⟩

/-- **What is read as a distance are the tokens of one**, and its pieces stand in front of the
others. -/
theorem readDistance_inv {ps rest : List String} {tokens : List Token}
    (h : readDistance ps = .ok (tokens, rest)) :
    (∃ c n a b, n ≤ largestNumber ∧ a ≤ largestNumber ∧ b ≤ largestNumber ∧
      tokens = distanceTokens c n a b) ∧ rest <:+ ps := by
  rw [readDistance] at h
  obtain ⟨behindOpening, hopening, h⟩ := exists_of_bind_ok h
  obtain ⟨⟨a, behindFirst⟩, hfirst, h⟩ := exists_of_bind_ok h
  obtain ⟨behindComma, hcomma, h⟩ := exists_of_bind_ok h
  obtain ⟨⟨b, behindSecond⟩, hsecond, h⟩ := exists_of_bind_ok h
  obtain ⟨behindClosing, hclosing, h⟩ := exists_of_bind_ok h
  obtain ⟨⟨symbol, piece, behind⟩, hcomparison, h⟩ := exists_of_bind_ok h
  obtain ⟨ha, hfirst⟩ := column_suffix hfirst
  obtain ⟨hb, hsecond⟩ := column_suffix hsecond
  have hsuffix : behind <:+ ps :=
    (comparison_suffix hcomparison).trans <| (delimiter_suffix hclosing).trans <|
      hsecond.trans <| (delimiter_suffix hcomma).trans <| hfirst.trans (delimiter_suffix hopening)
  cases hc : Comparison.ofSymbol? symbol with
  | none => simp [hc, throw, throwThe, MonadExceptOf.throw] at h
  | some c =>
    simp only [hc] at h
    split at h
    · cases h
      exact ⟨⟨c, numeralValue piece, a, b, Nat.min_le_right _ _, ha, hb, rfl⟩, hsuffix⟩
    · cases h

/-! ## 6. Cutting a text into tokens -/

/-- **Spelled tokens are read again.** -/
theorem tokensFrom_spelling : ∀ tokens, Printable tokens → ∀ fuel, (spelling tokens).length ≤ fuel →
    tokensFrom fuel (spelling tokens) = .ok tokens := by
  refine Printable.induct ?nil ?distance ?token
  case nil =>
    intro fuel _
    cases fuel <;> rfl
  case distance =>
    intro c n a b rest hn ha hb ih fuel hfuel
    rw [spelling_distance] at hfuel ⊢
    cases fuel with
    | zero => simp [distancePieces] at hfuel
    | succ fuel =>
      have hrest : tokensFrom fuel (spelling rest) = .ok rest :=
        ih fuel (by simp [distancePieces] at hfuel; omega)
      have hread : readDistance ((distancePieces c n a b).tail ++ spelling rest) =
          .ok (distanceTokens c n a b, spelling rest) := readDistance_spelling hn ha hb _
      have hpieces : distancePieces c n a b ++ spelling rest =
          "dist" :: ((distancePieces c n a b).tail ++ spelling rest) := rfl
      rw [hpieces, tokensFrom, if_pos rfl, hread]
      simp [Except.bind, hrest, Except.map]
  case token =>
    intro t rest ht hno ih fuel hfuel
    rw [spelling_cons hno] at hfuel ⊢
    cases fuel with
    | zero => simp at hfuel
    | succ fuel =>
      have hrest : tokensFrom fuel (spelling rest) = .ok rest :=
        ih fuel (by simpa using hfuel)
      rw [tokensFrom, if_neg (text_ne_dist ht hno), hrest, tokenOf_text ht hno]
      rfl

/-- **Pieces are read as printable tokens.** -/
theorem printable_of_tokensFrom : ∀ {fuel : Nat} {ps : List String} {tokens : List Token},
    (∀ p ∈ ps, IsPiece p) → tokensFrom fuel ps = .ok tokens → Printable tokens
  | 0, _, _, _, h => by
    cases h
    exact printable_nil
  | _ + 1, [], _, _, h => by
    cases h
    exact printable_nil
  | fuel + 1, piece :: ps, tokens, hps, h => by
    obtain ⟨hpiece, hps⟩ := List.forall_mem_cons.mp hps
    rw [tokensFrom] at h
    split at h
    · obtain ⟨⟨distance, rest⟩, hread, h⟩ := exists_of_bind_ok h
      obtain ⟨others, hothers, rfl⟩ := exists_of_map_ok h
      obtain ⟨⟨c, n, a, b, hn, ha, hb, rfl⟩, hsuffix⟩ := readDistance_inv hread
      exact .distance hn ha hb
        (printable_of_tokensFrom (fun p hp => hps p (hsuffix.subset hp)) hothers)
    · next hdist =>
      obtain ⟨others, hothers, rfl⟩ := exists_of_map_ok h
      obtain ⟨hproper, hno⟩ := proper_tokenOf hpiece hdist
      exact .cons hproper hno (printable_of_tokensFrom hps hothers)

/-- The plainest layout has a space in front of every piece. -/
theorem fits_spaced (ps : List String) : Layout.Fits (ps.map fun p => ([' '], p)) [] where
  blank := by
    have hspace : allBlank [' '] = true := by decide
    simp [hspace]
  blank_last := rfl
  apart := by
    rw [List.isChain_map]
    exact (List.pairwise_of_forall fun _ _ _ _ => by simp).isChain

/-- **Cutting a text into tokens undoes writing them down**, whatever white space stands between the
pieces; and the lists that a text is cut into are the printable ones. -/
theorem tokenize_undoes_printing :
    (∀ (tokens : List Token) (l : Layout) (last : List Char), Printable tokens →
      l.pieces = spelling tokens → l.Fits last →
      tokenize (String.ofList (l.text last)) = .ok tokens) ∧
    ∀ tokens, Printable tokens ↔ ∃ text, tokenize text = .ok tokens := by
  have hundo : ∀ (tokens : List Token) (l : Layout) (last : List Char), Printable tokens →
      l.pieces = spelling tokens → l.Fits last →
      tokenize (String.ofList (l.text last)) = .ok tokens := by
    intro tokens l last hprintable hpieces hfits
    have hcut : pieces (l.text last) = .ok (spelling tokens) := by
      rw [← hpieces]
      exact pieces_layout (hpieces ▸ isPiece_spelling tokens hprintable) hfits
    rw [tokenize, tokens?, String.toList_ofList, hcut, Except.bind,
      tokensFrom_spelling tokens hprintable _ (Nat.le_refl _)]
    rfl
  refine ⟨hundo, fun tokens => ⟨fun hprintable => ?_, ?_⟩⟩
  · have hpieces : Layout.pieces ((spelling tokens).map fun p => ([' '], p)) = spelling tokens := by
      simp [Layout.pieces, Function.comp_def]
    exact ⟨_, hundo tokens _ [] hprintable hpieces (fits_spaced _)⟩
  · rintro ⟨text, htext⟩
    have hcut : tokens? text.toList = .ok tokens := by
      rw [tokenize] at htext
      cases htokens : tokens? text.toList with
      | error flaw => simp [htokens, Except.mapError] at htext
      | ok found => simpa [htokens, Except.mapError] using htext
    obtain ⟨ps, hps, hread⟩ := exists_of_bind_ok hcut
    exact printable_of_tokensFrom (isPiece_of_pieces hps) hread

/-- A comparison cut in two, a no-break space between two words, a name that begins with a digit,
and a symbol outside of a distance. -/
theorem tokenize_undoes_printing_cut :
    let tokens := distanceTokens .lessEqual 3 0 12 ++ [.disjunction, .name "3x", .symbol '=']
    let l : Layout := [([], "dist"), ([' '], "("), ([], "0"), ([], ","), ([' ', '\t'], "12"),
      ([], ")"), ([], "<"), (['\n'], "="), ([], "3"), ([' '], "or"), (['\u00a0'], "3x"), ([], "=")]
    tokenize (String.ofList (l.text ['\n'])) = .ok tokens ∧ ∃ text, tokenize text = .ok tokens := by
  intro tokens l
  have hname : Token.Proper (.name "3x") := by
    refine ⟨?_, ?_, ?_⟩ <;> decide +kernel
  have hprintable : Printable tokens :=
    .distance (by decide) (by decide) (by decide) (.cons trivial (by simp)
      (.cons hname (by simp) (.cons (by simp [Token.Proper]) (by simp) printable_nil)))
  have hfits : l.Fits ['\n'] :=
    ⟨by decide +kernel, by decide, by decide +kernel⟩
  obtain ⟨hundo, himage⟩ := tokenize_undoes_printing
  exact ⟨hundo tokens l ['\n'] hprintable (by decide +kernel) hfits, (himage tokens).mp hprintable⟩

end TaggedText.Query
