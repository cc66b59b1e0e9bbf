/-
# What searching finds

The search halves a range of the list such that everything before it is less than the target and
everything behind it greater.  In a sorted list this holds of both halves again, and so the place
that the search ends with is the right one: `search_fits`.  There are no other conditions on the
list; it may hold spans repeatedly.

That the search comes to an end does not need the order.  Its rounds (`Rounds`) only ever look at
spans that the list has, and there are no more of them than the length of the list has binary
digits (`exists_rounds`).  A span that is discarded is searched for, and so **what is left of a list
is what does not occur among the discarded spans** (`search_finds_and_minus_removes`).
-/
import TaggedText.Proofs.Spans.Order
import TaggedText.Spans.Search
import Mathlib.Algebra.Group.Nat.Defs
import Mathlib.Data.Nat.Size

namespace TaggedText.Spans

variable {spans : List Span} {target : Span}

/-! ## 1. The place -/

/-- What a place says about the list: the target is there, or it would stand between all lesser
spans and all greater ones. -/
def Place.Fits (spans : List Span) (target : Span) : Place → Prop
  | .present i => spans[i]? = some target
  | .absent i => i ≤ spans.length ∧ (∀ a ∈ spans.take i, Span.compare a target = .lt) ∧
      ∀ a ∈ spans.drop i, Span.compare target a = .lt

/-- **The search between two bounds** ends with the right place if nothing before the first is too
great, and nothing from the second on too small. -/
theorem searchBetween_fits (hsorted : Span.Sorted spans) {low high : Nat} (hlow : low ≤ high)
    (hhigh : high ≤ spans.length) (hbefore : ∀ a ∈ spans.take low, Span.compare a target = .lt)
    (hbehind : ∀ a ∈ spans.drop high, Span.compare target a = .lt) :
    (searchBetween spans target low high).Fits spans target := by
  fun_induction searchBetween spans target low high with
  | case1 low high hlt middle hnone =>
    have := List.getElem?_eq_none_iff.mp hnone
    omega
  | case2 low high hlt middle a ha heq =>
    rw [Place.Fits, ha, Span.compare_eq_eq.mp heq]
  | case3 low high hlt middle a ha hless ih =>
    refine ih (by omega) (by omega) hbefore fun b hb => ?_
    obtain ⟨hi, rfl⟩ := List.getElem?_eq_some_iff.mp ha
    rw [List.drop_eq_getElem_cons hi] at hb
    rcases List.mem_cons.mp hb with rfl | hb
    · exact hless
    · exact Span.lt_of_lt_of_le hless ((hsorted.le_and_le ha).2 b hb)
  | case4 low high hlt middle a ha hgreater ih =>
    have hless := Span.compare_eq_gt.mp hgreater
    refine ih (by omega) hhigh (fun b hb => ?_) hbehind
    rw [List.take_add_one, ha] at hb
    rcases List.mem_append.mp hb with hb | hb
    · exact Span.lt_of_le_of_lt ((hsorted.le_and_le ha).1 b hb) hless
    · rwa [List.mem_singleton.mp hb]
  | case5 low high hge =>
    have : low = high := by omega
    subst this
    exact ⟨hhigh, hbefore, hbehind⟩

/-- **The place of a span in a sorted list is the right one.** -/
theorem search_fits (hsorted : Span.Sorted spans) (target : Span) :
    (search spans target).Fits spans target :=
  searchBetween_fits hsorted (Nat.zero_le _) le_rfl (by simp) (by simp)

/-- A place at which nothing is found tells that the span does not occur. -/
theorem Place.Fits.not_mem {i : Nat} (h : (Place.absent i).Fits spans target) : target ∉ spans := by
  obtain ⟨-, hbefore, hbehind⟩ := h
  intro hmem
  rw [← List.take_append_drop i spans] at hmem
  rcases List.mem_append.mp hmem with hmem | hmem
  · exact Span.ne_of_lt (hbefore target hmem) rfl
  · exact Span.ne_of_lt (hbehind target hmem) rfl

/-- **Searching a sorted list tells whether a span occurs.** -/
theorem isPresent_search (hsorted : Span.Sorted spans) (target : Span) :
    (search spans target).isPresent = true ↔ target ∈ spans := by
  have hfits := search_fits hsorted target
  cases hplace : search spans target with
  | present i =>
    rw [hplace] at hfits
    simpa [Place.isPresent] using List.mem_of_getElem? hfits
  | absent i =>
    rw [hplace] at hfits
    simpa [Place.isPresent] using hfits.not_mem

theorem insertIdx_eq_take_append_drop {a : Span} {i : Nat} (hi : i ≤ spans.length) :
    spans.insertIdx i a = spans.take i ++ a :: spans.drop i := by
  induction spans generalizing i with
  | nil => simp_all
  | cons first rest ih =>
    cases i with
    | zero => rfl
    | succ i => simpa using ih (by simpa using hi)

/-- **A span put at its place keeps the order.** -/
theorem Place.Fits.insertIdx (hsorted : Span.Sorted spans) {i : Nat}
    (h : (Place.absent i).Fits spans target) :
    ∃ front back, spans = front ++ back ∧ spans.insertIdx i target = front ++ target :: back ∧
      Span.Sorted (front ++ target :: back) := by
  obtain ⟨hi, hbefore, hbehind⟩ := h
  have hsplit := List.take_append_drop i spans
  exact ⟨spans.take i, spans.drop i, hsplit.symm, insertIdx_eq_take_append_drop hi,
    Span.Sorted.insert (hsplit.symm ▸ hsorted) hbefore hbehind⟩

/-! ## 2. The rounds -/

/-- **How a search goes on**, round by round: with so many looks into a list, a search between two
bounds ends with a place.  A look is at the middle of the range, and the list has a span there. -/
inductive Rounds (spans : List Span) (target : Span) : Nat → Nat → Nat → Place → Prop where
  | ended {low high : Nat} (hrange : ¬ low < high) : Rounds spans target 0 low high (.absent low)
  | met {low high : Nat} {a : Span} (hrange : low < high)
    (ha : spans[low + (high - low) / 2]? = some a) (horder : Span.compare target a = .eq) :
    Rounds spans target 1 low high (.present (low + (high - low) / 2))
  | lower {low high looks : Nat} {a : Span} {place : Place} (hrange : low < high)
    (ha : spans[low + (high - low) / 2]? = some a) (horder : Span.compare target a = .lt)
    (hrest : Rounds spans target looks low (low + (high - low) / 2) place) :
    Rounds spans target (looks + 1) low high place
  | upper {low high looks : Nat} {a : Span} {place : Place} (hrange : low < high)
    (ha : spans[low + (high - low) / 2]? = some a) (horder : Span.compare target a = .gt)
    (hrest : Rounds spans target looks (low + (high - low) / 2 + 1) high place) :
    Rounds spans target (looks + 1) low high place

/-- Every look halves the range, so `k` looks do for a range of fewer than `2 ^ k` spans. -/
theorem exists_rounds_between {low high : Nat} (hhigh : high ≤ spans.length) :
    ∀ {k : Nat}, high - low < 2 ^ k →
      ∃ looks ≤ k, Rounds spans target looks low high (searchBetween spans target low high) := by
  fun_induction searchBetween spans target low high with
  | case1 low high hlt middle hnone =>
    have := List.getElem?_eq_none_iff.mp hnone
    omega
  | case2 low high hlt middle a ha heq =>
    intro k hk
    have hpos : k ≠ 0 := by
      rintro rfl
      omega
    exact ⟨1, by omega, .met hlt ha heq⟩
  | case3 low high hlt middle a ha hless ih =>
    intro k hk
    cases k with
    | zero => omega
    | succ k =>
      rw [Nat.pow_succ] at hk
      obtain ⟨looks, hlooks, hrest⟩ := ih (by omega) (k := k) (by omega)
      exact ⟨looks + 1, by omega, .lower hlt ha hless hrest⟩
  | case4 low high hlt middle a ha hgreater ih =>
    intro k hk
    cases k with
    | zero => omega
    | succ k =>
      rw [Nat.pow_succ] at hk
      obtain ⟨looks, hlooks, hrest⟩ := ih hhigh (k := k) (by omega)
      exact ⟨looks + 1, by omega, .upper hlt ha hgreater hrest⟩
  | case5 low high hge =>
    intro k _
    exact ⟨0, Nat.zero_le k, .ended hge⟩

/-- **A search ends**, sorted or not, after at most as many looks as the length of the list has
binary digits. -/
theorem exists_rounds (spans : List Span) (target : Span) :
    ∃ looks ≤ spans.length.size,
      Rounds spans target looks 0 spans.length (search spans target) :=
  exists_rounds_between le_rfl (Nat.lt_size_self spans.length)

/-! ## 3. What is left of a list -/

/-- **What is left are the spans that do not occur among those to discard**, as they stood. -/
theorem minus_eq_filter (kept discard : List Span) :
    minus kept discard = kept.filter fun a => a ∉ discard := by
  refine List.filter_congr fun a _ => ?_
  have hpresent := (isPresent_search (Span.sorted_sort discard) a).trans Span.mem_sort
  rw [Bool.eq_iff_iff, Bool.not_eq_true', ← Bool.not_eq_true, hpresent, decide_eq_true_iff]

/-- **Searching a sorted list ends with the right place**: one where the target stands, or, if it
does not occur, the one that parts the lesser spans from the greater.  So what is left of any list is
all of it, in its order and as often, but for the spans that occur among those to discard. -/
theorem search_finds_and_minus_removes (hsorted : Span.Sorted spans) (target : Span)
    (kept discard : List Span) :
    (∃ looks ≤ spans.length.size,
      Rounds spans target looks 0 spans.length (search spans target)) ∧
    (∀ i, search spans target = .present i → spans[i]? = some target) ∧
    (∀ i, search spans target = .absent i → target ∉ spans ∧ i ≤ spans.length ∧
      (∀ a ∈ spans.take i, Span.compare a target = .lt) ∧
      ∀ a ∈ spans.drop i, Span.compare a target = .gt) ∧
    minus kept discard = kept.filter fun a => a ∉ discard := by
  have hfits := search_fits hsorted target
  refine ⟨exists_rounds spans target, ?_, ?_, minus_eq_filter kept discard⟩
  · intro i hpresent
    rwa [hpresent] at hfits
  · intro i habsent
    rw [habsent] at hfits
    have hnot := hfits.not_mem
    obtain ⟨hi, hbefore, hbehind⟩ := hfits
    exact ⟨hnot, hi, hbefore, fun a ha => Span.compare_eq_gt.mpr (hbehind a ha)⟩

/-- A target between repeated spans that differ from it in the offset only, and a span that is
discarded at both of its places. -/
theorem search_finds_and_minus_removes_repeated :
    let a : Span := ⟨1, 3, 0, by decide⟩
    let b : Span := ⟨1, 3, 2, by decide⟩
    let target : Span := ⟨1, 3, 1, by decide⟩
    let c : Span := ⟨2, 2, 0, by decide⟩
    Span.Sorted [a, a, b, b, c] ∧
    (∃ looks ≤ 3, Rounds [a, a, b, b, c] target looks 0 5 (.absent 2)) ∧
    search [a, a, b, b, c] target = .absent 2 ∧ target ∉ [a, a, b, b, c] ∧
    (∀ x ∈ [a, a], Span.compare x target = .lt) ∧ (∀ x ∈ [b, b, c], Span.compare x target = .gt) ∧
    minus [c, b, a, b, c, a] [b, target, b] = [c, a, c, a] := by
  intro a b target c
  have hsorted : Span.Sorted [a, a, b, b, c] := by unfold Span.Sorted; decide
  have habsent : search [a, a, b, b, c] target = .absent 2 := by cbv
  obtain ⟨⟨looks, hlooks, hrounds⟩, -, hplace, hleft⟩ :=
    search_finds_and_minus_removes hsorted target [c, b, a, b, c, a] [b, target, b]
  have hdigits : [a, a, b, b, c].length.size = 3 := by decide
  rw [hdigits] at hlooks
  rw [habsent] at hrounds
  obtain ⟨hnot, -, hbefore, hbehind⟩ := hplace 2 habsent
  exact ⟨hsorted, ⟨looks, hlooks, hrounds⟩, habsent, hnot, hbefore, hbehind, hleft.trans (by decide)⟩

end TaggedText.Spans
