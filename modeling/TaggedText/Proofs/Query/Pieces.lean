/-
# Pieces and the white space around them

A text is laid out from pieces, words and delimiters, with white space in front of each and at the
end.  Two words need some between them, and nothing else does.  **Every layout is cut into its
pieces again**: `pieces_layout`.  And a text that can be cut has no other pieces than words and
delimiters: `isPiece_of_pieces`.

What separates pieces is the first character behind a word, so the three classes of characters are
shown to be apart first.
-/
import TaggedText.Proofs.Outcome
import Mathlib.Data.List.Chain
import Mathlib.Tactic.FinCases

namespace TaggedText.Query

open Text (isWord isBlank allBlank)

/-! ## 1. Classes of characters -/

theorem isWord_of_isBlank {c : Char} (h : isBlank c = true) : isWord c = false := by
  -- the ranges of white space hold a few code points only
  have hall : ∀ r ∈ Text.blankRanges, ∀ k ≤ r.2 - r.1, isWord (Char.ofNat (r.1 + k)) = false := by
    decide +kernel
  obtain ⟨r, hr, hlow, hhigh⟩ := (Text.inRanges_iff _ _).mp h
  have hc := hall r hr (c.toNat - r.1) (by omega)
  rwa [Nat.add_sub_cancel' hlow, Char.ofNat_toNat] at hc

theorem mem_of_isDelimiter {c : Char} (h : isDelimiter c = true) :
    c ∈ [')', '(', ',', '>', '<', '=', '!'] := by
  simpa [isDelimiter, or_assoc] using h

theorem isWord_of_isDelimiter {c : Char} (h : isDelimiter c = true) : isWord c = false := by
  have hmem := mem_of_isDelimiter h
  fin_cases hmem <;> decide +kernel

theorem isDelimiter_of_isBlank {c : Char} (h : isBlank c = true) : isDelimiter c = false := by
  by_contra hd
  have hmem := mem_of_isDelimiter (by simpa using hd)
  fin_cases hmem <;> exact absurd h (by decide)

theorem isWord_of_isDigit {c : Char} (h : c.isDigit = true) : isWord c = true := by
  refine Text.isWord_of_isDecimal ?_
  have hrange := Char.isDigit_iff_toNat.mp h
  have hascii : Text.isAscii c = true := by
    have : '9'.toNat < 128 := by decide
    simp only [Text.isAscii, decide_eq_true_eq]
    omega
  simp [Text.isDecimal, hascii, h]

/-! ## 2. Layouts -/

/-- The piece is a word. -/
def isWordPiece (piece : String) : Bool := !piece.isEmpty && piece.toList.all isWord

/-- A word or a delimiter. -/
def IsPiece (piece : String) : Prop :=
  isWordPiece piece = true ∨ ∃ c, isDelimiter c = true ∧ piece = String.singleton c

/-- Pieces, each with the white space in front of it. -/
abbrev Layout := List (List Char × String)

namespace Layout

/-- The pieces of a layout. -/
def pieces (l : Layout) : List String := l.map Prod.snd

/-- The text of a layout, with white space behind it. -/
def text (l : Layout) (last : List Char) : List Char :=
  (l.flatMap fun (gap, piece) => gap ++ piece.toList) ++ last

/-- The gaps hold nothing but white space, and some of it between two words. -/
structure Fits (l : Layout) (last : List Char) : Prop where
  blank : ∀ entry ∈ l, allBlank entry.1 = true
  blank_last : allBlank last = true
  apart : l.IsChain fun first second =>
    isWordPiece first.2 = true → isWordPiece second.2 = true → second.1 ≠ []

theorem text_cons (gap : List Char) (piece : String) (l : Layout) (last : List Char) :
    text ((gap, piece) :: l) last = gap ++ (piece.toList ++ l.text last) := by
  simp [text, List.append_assoc]

theorem Fits.tail {entry : List Char × String} {l : Layout} {last : List Char}
    (h : Fits (entry :: l) last) : l.Fits last :=
  ⟨fun e he => h.blank e (List.mem_cons_of_mem _ he), h.blank_last, h.apart.tail⟩

/-- **Behind a word a layout does not go on with a word character.** -/
theorem Fits.head_text {gap : List Char} {piece : String} {l : Layout} {last : List Char}
    (h : Fits ((gap, piece) :: l) last) (hl : ∀ p ∈ l.pieces, IsPiece p)
    (hpiece : isWordPiece piece = true) : ∀ c ∈ (l.text last).head?, isWord c = false := by
  intro c hc
  cases l with
  | nil =>
    have hmem : c ∈ last := List.mem_of_head? (by simpa [text] using hc)
    exact isWord_of_isBlank (List.all_eq_true.mp h.blank_last c hmem)
  | cons next l =>
    obtain ⟨gap', piece'⟩ := next
    rw [text_cons] at hc
    cases gap' with
    | cons b gap' =>
      obtain rfl : b = c := by simpa using hc
      have hblank := h.blank (b :: gap', piece') (by simp)
      exact isWord_of_isBlank (List.all_eq_true.mp hblank b List.mem_cons_self)
    | nil =>
      rcases hl piece' (by simp [pieces]) with hword | ⟨d, hd, rfl⟩
      · exact absurd rfl ((List.isChain_cons_cons.mp h.apart).1 hpiece hword)
      · obtain rfl : d = c := by simpa using hc
        exact isWord_of_isDelimiter hd

end Layout

/-! ## 3. Cutting a layout -/

theorem piecesAfter_word {backwards : List Char} {c : Char} (h : isWord c = true)
    (rest : List Char) : piecesAfter backwards (c :: rest) = piecesAfter (c :: backwards) rest := by
  rw [piecesAfter, if_pos h]

theorem piecesAfter_delimiter {backwards : List Char} {c : Char} (h : isDelimiter c = true)
    (rest : List Char) : piecesAfter backwards (c :: rest) =
      (piecesAfter [] rest).map fun pieces => wordPiece backwards ++ String.singleton c :: pieces := by
  rw [piecesAfter, isWord_of_isDelimiter h, if_neg (by simp), if_pos h]

theorem piecesAfter_blank {backwards : List Char} {c : Char} (h : isBlank c = true)
    (rest : List Char) : piecesAfter backwards (c :: rest) =
      (piecesAfter [] rest).map (wordPiece backwards ++ ·) := by
  rw [piecesAfter, isWord_of_isBlank h, isDelimiter_of_isBlank h, if_neg (by simp),
    if_neg (by simp), if_pos h]

theorem pieces_gap : ∀ {gap : List Char}, allBlank gap = true → ∀ rest,
    pieces (gap ++ rest) = pieces rest
  | [], _, rest => rfl
  | c :: gap, h, rest => by
    obtain ⟨hc, hgap⟩ : isBlank c = true ∧ allBlank gap = true := by simpa [allBlank] using h
    have ih := pieces_gap hgap rest
    rw [pieces] at ih ⊢
    rw [List.cons_append, piecesAfter_blank hc, ih, pieces]
    cases piecesAfter [] rest <;> simp [Except.map, wordPiece]

theorem piecesAfter_append : ∀ {word : List Char}, word.all isWord = true → ∀ backwards rest,
    piecesAfter backwards (word ++ rest) = piecesAfter (word.reverse ++ backwards) rest
  | [], _, backwards, rest => rfl
  | c :: word, h, backwards, rest => by
    obtain ⟨hc, hword⟩ : isWord c = true ∧ word.all isWord = true := by simpa using h
    rw [List.cons_append, piecesAfter_word hc, piecesAfter_append hword]
    simp

/-- A word ends where no word character comes next. -/
theorem piecesAfter_end (backwards : List Char) : ∀ {rest : List Char},
    (∀ c ∈ rest.head?, isWord c = false) →
    piecesAfter backwards rest = (pieces rest).map (wordPiece backwards ++ ·)
  | [], _ => by simp [pieces, piecesAfter, Except.map, wordPiece]
  | c :: rest, h => by
    have hc : isWord c = false := h c rfl
    rw [pieces]
    by_cases hd : isDelimiter c = true
    · rw [piecesAfter_delimiter hd, piecesAfter_delimiter hd]
      cases piecesAfter [] rest <;> simp [Except.map, wordPiece]
    by_cases hb : isBlank c = true
    · rw [piecesAfter_blank hb, piecesAfter_blank hb]
      cases piecesAfter [] rest <;> simp [Except.map, wordPiece]
    · simp [piecesAfter, hc, hd, hb, Except.map]

/-- **A piece is cut off** where it ends. -/
theorem pieces_piece {piece : String} (hpiece : IsPiece piece) {rest : List Char}
    (hrest : isWordPiece piece = true → ∀ c ∈ rest.head?, isWord c = false) :
    pieces (piece.toList ++ rest) = (pieces rest).map (piece :: ·) := by
  rcases hpiece with hword | ⟨d, hd, rfl⟩
  · obtain ⟨hne, hall⟩ : piece ≠ "" ∧ piece.toList.all isWord = true := by
      simpa [isWordPiece] using hword
    have hback : wordPiece (piece.toList.reverse ++ []) = [piece] := by
      simp [wordPiece, hne]
    rw [pieces, piecesAfter_append hall, piecesAfter_end _ (hrest hword), hback]
    rfl
  · rw [pieces, String.toList_singleton, List.singleton_append, piecesAfter_delimiter hd]
    rfl

/-- **A layout is cut into its pieces.** -/
theorem pieces_layout : ∀ {l : Layout} {last : List Char}, (∀ p ∈ l.pieces, IsPiece p) →
    l.Fits last → pieces (l.text last) = .ok l.pieces
  | [], last, _, h => by
    have hlast := pieces_gap h.blank_last []
    rw [List.append_nil] at hlast
    exact hlast
  | (gap, piece) :: l, last, hp, h => by
    obtain ⟨hpiece, hl⟩ : IsPiece piece ∧ ∀ p ∈ Layout.pieces l, IsPiece p := by
      simpa [Layout.pieces] using hp
    have hgap := h.blank (gap, piece) List.mem_cons_self
    rw [Layout.text_cons, pieces_gap hgap, pieces_piece hpiece (h.head_text hl),
      pieces_layout hl h.tail]
    rfl

/-! ## 4. Nothing but pieces -/

theorem isPiece_of_mem_wordPiece {backwards : List Char} (h : backwards.all isWord = true)
    {p : String} (hp : p ∈ wordPiece backwards) : IsPiece p := by
  rw [wordPiece] at hp
  split at hp
  · cases hp
  · next hne =>
    obtain rfl := List.mem_singleton.mp hp
    refine .inl ?_
    simpa [isWordPiece] using ⟨by simpa using hne, by simpa using h⟩

theorem isPiece_of_piecesAfter : ∀ {text backwards : List Char} {ps : List String},
    backwards.all isWord = true → piecesAfter backwards text = .ok ps → ∀ p ∈ ps, IsPiece p
  | [], backwards, ps, hback, h => by
    cases h
    exact fun p hp => isPiece_of_mem_wordPiece hback hp
  | c :: rest, backwards, ps, hback, h => by
    rw [piecesAfter] at h
    split at h
    · next hc => exact isPiece_of_piecesAfter (by simp [hc, hback]) h
    split at h
    · next hd =>
      obtain ⟨qs, hqs, rfl⟩ := exists_of_map_ok h
      refine List.forall_mem_append.mpr ⟨fun p hp => isPiece_of_mem_wordPiece hback hp,
        List.forall_mem_cons.mpr ⟨.inr ⟨c, hd, rfl⟩, isPiece_of_piecesAfter rfl hqs⟩⟩
    split at h
    · obtain ⟨qs, hqs, rfl⟩ := exists_of_map_ok h
      exact List.forall_mem_append.mpr
        ⟨fun p hp => isPiece_of_mem_wordPiece hback hp, isPiece_of_piecesAfter rfl hqs⟩
    · cases h

/-- **A text that is cut has words and delimiters only.** -/
theorem isPiece_of_pieces {text : List Char} {ps : List String} (h : pieces text = .ok ps) :
    ∀ p ∈ ps, IsPiece p :=
  isPiece_of_piecesAfter rfl h

end TaggedText.Query
