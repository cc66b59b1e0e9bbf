/-
# Splitting texts at positions

A split of a text is told by the width of its front, as no two fronts of a text have one width
(`append_inj_of_width_eq`).  So what a text becomes when something else is put between two positions
is told by the split in three that they make (`Cut`, `splice?_eq_some_iff`).
-/
import TaggedText.Text.Units
import Mathlib.Data.List.Basic

namespace TaggedText.Text

variable {text front back front' back' piece new result : List Char} {n start stop : Nat}

/-! ## 1. Splits in two -/

theorem eq_nil_of_width_eq_zero {l : List Char} (h : width l = 0) : l = [] := by
  cases l with
  | nil => rfl
  | cons c l =>
    have hc := c.utf8Size_pos
    rw [width_cons] at h
    omega

/-- Of two splits of a text, one goes on where the other one is. -/
theorem exists_eq_append_of_width_le (h : front ++ back = front' ++ back')
    (hle : width front ≤ width front') :
    ∃ between, front' = front ++ between ∧ back = between ++ back' := by
  rcases List.append_eq_append_iff.mp h with hsplit | ⟨between, rfl, rfl⟩
  · exact hsplit
  · have hnil : between = [] := by
      apply eq_nil_of_width_eq_zero
      rw [width_append] at hle
      omega
    subst hnil
    exact ⟨[], by simp, rfl⟩

theorem append_inj_of_width_eq (h : front ++ back = front' ++ back')
    (heq : width front = width front') : front = front' ∧ back = back' := by
  obtain ⟨between, rfl, rfl⟩ := exists_eq_append_of_width_le h (Nat.le_of_eq heq)
  rw [width_append] at heq
  have hnil : between = [] := eq_nil_of_width_eq_zero (by omega)
  subst hnil
  exact ⟨(List.append_nil front).symm, rfl⟩

theorem splitAt?_eq_some_iff :
    splitAt? text n = some (front, back) ↔ text = front ++ back ∧ width front = n := by
  refine ⟨splitAt?_eq_some, ?_⟩
  rintro ⟨rfl, rfl⟩
  exact splitAt?_append front back

theorem isBoundary_iff :
    isBoundary text n = true ↔ ∃ front back, text = front ++ back ∧ width front = n := by
  simp only [isBoundary, Option.isSome_iff_exists, Prod.exists, splitAt?_eq_some_iff]

/-- Up to a position it makes no difference what stands behind it. -/
theorem isBoundary_append_congr (hle : n ≤ width front) :
    isBoundary (front ++ back) n = isBoundary (front ++ back') n := by
  have himp : ∀ {back back' : List Char}, isBoundary (front ++ back) n = true →
      isBoundary (front ++ back') n = true := by
    intro back back' h
    obtain ⟨first, rest, htext, rfl⟩ := isBoundary_iff.mp h
    obtain ⟨between, rfl, -⟩ := exists_eq_append_of_width_le htext.symm hle
    exact isBoundary_iff.mpr ⟨first, between ++ back', List.append_assoc first between back', rfl⟩
  exact Bool.eq_iff_iff.mpr ⟨himp, himp⟩

/-! ## 2. Splits in three -/

/-- Two positions cut a text in three. -/
structure Cut (text : List Char) (start stop : Nat) (front piece back : List Char) : Prop where
  text : text = front ++ (piece ++ back)
  start : width front = start
  stop : width front + width piece = stop

/-- **Two positions in order cut a text.** -/
theorem exists_cut_iff : (∃ front piece back, Cut text start stop front piece back) ↔
    start ≤ stop ∧ isBoundary text start = true ∧ isBoundary text stop = true := by
  simp only [isBoundary_iff]
  constructor
  · rintro ⟨front, piece, back, rfl, rfl, rfl⟩
    exact ⟨Nat.le_add_right _ _, ⟨front, piece ++ back, rfl, rfl⟩,
      ⟨front ++ piece, back, by rw [List.append_assoc], width_append front piece⟩⟩
  · rintro ⟨hle, ⟨front, rest, rfl, rfl⟩, ⟨whole, back, htext, rfl⟩⟩
    obtain ⟨piece, rfl, rfl⟩ := exists_eq_append_of_width_le htext hle
    exact ⟨front, piece, back, rfl, rfl, (width_append front piece).symm⟩

/-- **A text is put in place of what lies between two positions.** -/
theorem splice?_eq_some_iff : splice? text start stop new = some result ↔
    ∃ front piece back, Cut text start stop front piece back ∧ result = front ++ (new ++ back) := by
  constructor
  · intro h
    simp only [splice?, Option.bind_eq_bind, Option.bind_eq_some_iff, Prod.exists] at h
    obtain ⟨front, rest, hfront, h⟩ := h
    split at h
    · cases h
    · next hle =>
      obtain ⟨⟨piece, back⟩, hpiece, hresult⟩ := Option.bind_eq_some_iff.mp h
      cases hresult
      obtain ⟨rfl, rfl⟩ := splitAt?_eq_some hfront
      obtain ⟨rfl, hwidth⟩ := splitAt?_eq_some hpiece
      exact ⟨front, piece, back, ⟨rfl, rfl, by omega⟩, List.append_assoc front new back⟩
  · rintro ⟨front, piece, back, ⟨rfl, rfl, rfl⟩, rfl⟩
    have hle : ¬ width front + width piece < width front := by omega
    simp [splice?, splitAt?_append, hle]

/-- **Between two positions in order a text can be put.** -/
theorem exists_splice? (hle : start ≤ stop) (hstart : isBoundary text start = true)
    (hstop : isBoundary text stop = true) (new : List Char) :
    ∃ result, splice? text start stop new = some result := by
  obtain ⟨front, piece, back, hcut⟩ := exists_cut_iff.mpr ⟨hle, hstart, hstop⟩
  exact ⟨_, splice?_eq_some_iff.mpr ⟨front, piece, back, hcut, rfl⟩⟩

end TaggedText.Text
