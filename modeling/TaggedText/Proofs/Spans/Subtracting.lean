/-
# What is left of spans

Taking out parts makes a span shorter, or two spans of one (`IsPart`), and takes away no position
but those of cuts with its offset; it fails only if a span intersects a span with another offset
that is to be discarded.  So much holds of all lists (`subtracting_stays_between`).

That every part to discard is found rests on the order of the cuts: those that a span has passed do
not matter to what comes behind it, and the cuts that matter follow each other.  This is so if each
cut is clear of the next one, and each span in the queue too, which merging sees to if only spans
with one offset intersect in either list (`subtracting_offsets_apart`).  With several offsets a cut
may reach beyond one that stands behind it in the order, and then parts to discard are left
(`subtracting_leaves_what_stands_behind`).
-/
import TaggedText.Proofs.Spans.Merging
import TaggedText.Spans.Subtract
import Mathlib.Data.List.TakeWhile

namespace TaggedText

/-! ## 1. Parts of spans -/

namespace Span

variable {a b c d part whole : Span} {p : Nat}

/-- A part of a span with its offset, which is empty only if the span is. -/
structure IsPart (part whole : Span) : Prop where
  offset_eq : part.offset = whole.offset
  start_le : whole.start ≤ part.start
  stop_le : part.stop ≤ whole.stop
  isEmpty : part.start = part.stop → whole.start = whole.stop

theorem IsPart.refl (a : Span) : IsPart a a := ⟨rfl, le_rfl, le_rfl, id⟩

theorem IsPart.trans (hab : IsPart a b) (hbc : IsPart b c) : IsPart a c where
  offset_eq := hab.offset_eq.trans hbc.offset_eq
  start_le := hbc.start_le.trans hab.start_le
  stop_le := hab.stop_le.trans hbc.stop_le
  isEmpty h := hbc.isEmpty (hab.isEmpty h)

/-- The part of a span behind a place in it. -/
theorem isPart_behind {n : Nat} (hstart : a.start ≤ n) (hstop : n < a.stop) :
    IsPart ⟨n, a.stop, a.offset, hstop.le⟩ a where
  offset_eq := rfl
  start_le := hstart
  stop_le := le_rfl
  isEmpty h := absurd h hstop.ne

/-- The part of a span in front of a place in it. -/
theorem isPart_front {n : Nat} (hstart : a.start < n) (hstop : n ≤ a.stop) :
    IsPart ⟨a.start, n, a.offset, hstart.le⟩ a where
  offset_eq := rfl
  start_le := le_rfl
  stop_le := hstop
  isEmpty h := absurd h hstart.ne

theorem IsPart.holds (h : IsPart part whole) (hp : part.Holds p) : whole.Holds p :=
  ⟨h.start_le.trans hp.1, hp.2.trans_le h.stop_le⟩

theorem IsPart.intersects (h : IsPart part whole) (hd : part.intersects d = true) :
    whole.intersects d = true := by
  obtain ⟨-, hstart, hstop, hempty⟩ := h
  have hpart := part.start_le_stop
  have hdstop := d.start_le_stop
  rw [intersects_iff] at hd ⊢
  omega

/-- Parts are clear of what the span is clear of. -/
theorem IsPart.clear (h : IsPart part whole) (hd : whole.Clear d) : part.Clear d := by
  obtain ⟨-, hstart, hstop, hempty⟩ := h
  have hpart := part.start_le_stop
  rw [clear_iff] at hd ⊢
  omega

theorem IsPart.clear_right (h : IsPart part whole) (hd : d.Clear whole) : d.Clear part := by
  obtain ⟨-, hstart, hstop, hempty⟩ := h
  have hpart := part.start_le_stop
  rw [clear_iff] at hd ⊢
  omega

end Span

namespace Spans

variable {current cut front part d e : Span} {spans discard queue waiting cuts rest : List Span}
variable {left : Option Span} {split : List Span} {offset p : Nat}

/-! ## 2. One span and its cuts -/

/-- A cut that intersects a span overlaps or starts it if it ends inside and begins no later. -/
theorem takesBeginning_iff (h : current.intersects cut = true) :
    (cut.overlaps current || cut.starts current) = true ↔
      cut.start ≤ current.start ∧ cut.stop < current.stop := by
  have hcut := cut.start_le_stop
  rw [Span.intersects_iff] at h
  simp only [Span.overlaps, Span.starts, Bool.or_eq_true, Bool.and_eq_true, decide_eq_true_eq,
    beq_iff_eq]
  omega

theorem takesMiddle_iff : cut.during current = true ↔
    current.start < cut.start ∧ cut.stop < current.stop := by
  simp only [Span.during, Bool.and_eq_true, decide_eq_true_eq]

/-- A cut that intersects a span is overlapped by it or finishes it if it begins inside and ends no
earlier. -/
theorem takesEnding_iff (h : current.intersects cut = true) :
    (current.overlaps cut || cut.finishes current) = true ↔
      current.start < cut.start ∧ current.stop ≤ cut.stop := by
  have hcut := cut.start_le_stop
  rw [Span.intersects_iff] at h
  simp only [Span.overlaps, Span.finishes, Bool.or_eq_true, Bool.and_eq_true, decide_eq_true_eq,
    beq_iff_eq]
  omega

/-- **What the next cut does to a span**: nothing and no more cuts are looked at, or trimming fails,
or the cut takes away the beginning, a part in the middle, the end, or all of the span. -/
theorem trim_cons_cases (current cut : Span) (rest : List Span) :
    (current.intersects cut = false ∧ trim current (cut :: rest) = .ok (some current, [])) ∨
    current.intersects cut = true ∧
      ((current.offset ≠ cut.offset ∧
        trim current (cut :: rest) = .error (.offsetsDiffer .subtraction)) ∨
      current.offset = cut.offset ∧
        ((∃ hstop : cut.stop < current.stop, cut.start ≤ current.start ∧
          trim current (cut :: rest) =
            trim ⟨cut.stop, current.stop, current.offset, hstop.le⟩ rest) ∨
        (∃ hstart : current.start < cut.start, ∃ hstop : cut.stop < current.stop,
          trim current (cut :: rest) =
            (trim ⟨current.start, cut.start, current.offset, hstart.le⟩ rest).map
              fun (left, split) =>
                (left, split ++ [⟨cut.stop, current.stop, current.offset, hstop.le⟩])) ∨
        (∃ hstart : current.start < cut.start, current.stop ≤ cut.stop ∧
          trim current (cut :: rest) =
            trim ⟨current.start, cut.start, current.offset, hstart.le⟩ rest) ∨
        (cut.start ≤ current.start ∧ current.stop ≤ cut.stop ∧
          trim current (cut :: rest) = .ok (none, [])))) := by
  cases hintersects : current.intersects cut with
  | false =>
    refine .inl ⟨rfl, ?_⟩
    rw [trim, if_pos (by rw [hintersects, Bool.not_false])]
  | true =>
    refine .inr ⟨rfl, ?_⟩
    rw [trim, if_neg (by rw [hintersects, Bool.not_true]; exact Bool.false_ne_true)]
    by_cases hoffset : current.offset = cut.offset
    · refine .inr ⟨hoffset, ?_⟩
      rw [if_neg (not_not.mpr hoffset)]
      by_cases hbeginning : (cut.overlaps current || cut.starts current) = true
      · obtain ⟨hstart, hstop⟩ := (takesBeginning_iff hintersects).mp hbeginning
        exact .inl ⟨hstop, hstart, by rw [dif_pos hbeginning]⟩
      by_cases hmiddle : cut.during current = true
      · obtain ⟨hstart, hstop⟩ := takesMiddle_iff.mp hmiddle
        exact .inr (.inl ⟨hstart, hstop, by rw [dif_neg hbeginning, dif_pos hmiddle]⟩)
      by_cases hending : (current.overlaps cut || cut.finishes current) = true
      · obtain ⟨hstart, hstop⟩ := (takesEnding_iff hintersects).mp hending
        refine .inr (.inr (.inl ⟨hstart, hstop, ?_⟩))
        rw [dif_neg hbeginning, dif_neg hmiddle, dif_pos hending]
      · have hall : cut.start ≤ current.start ∧ current.stop ≤ cut.stop := by
          rw [takesBeginning_iff hintersects] at hbeginning
          rw [takesMiddle_iff] at hmiddle
          rw [takesEnding_iff hintersects] at hending
          omega
        refine .inr (.inr (.inr ⟨hall.1, hall.2, ?_⟩))
        rw [dif_neg hbeginning, dif_neg hmiddle, dif_neg hending]
    · exact .inl ⟨hoffset, by rw [if_pos hoffset]⟩

/-- **How a span is trimmed**, cut by cut.  It is done when no cut is left or the next one does not
intersect it; otherwise the cut takes away its beginning, a part in its middle, its end, or all of
it. -/
inductive Trims : Span → List Span → Option Span → List Span → Prop
  | done (current : Span) : Trims current [] (some current) []
  | clear {current cut : Span} {rest : List Span} (hclear : current.intersects cut = false) :
      Trims current (cut :: rest) (some current) []
  | beginning {current cut : Span} {rest split : List Span} {left : Option Span}
      (hintersects : current.intersects cut = true) (hoffset : current.offset = cut.offset)
      (hstart : cut.start ≤ current.start) (hstop : cut.stop < current.stop)
      (hrest : Trims ⟨cut.stop, current.stop, current.offset, hstop.le⟩ rest left split) :
      Trims current (cut :: rest) left split
  | middle {current cut : Span} {rest split : List Span} {left : Option Span}
      (hintersects : current.intersects cut = true) (hoffset : current.offset = cut.offset)
      (hstart : current.start < cut.start) (hstop : cut.stop < current.stop)
      (hrest : Trims ⟨current.start, cut.start, current.offset, hstart.le⟩ rest left split) :
      Trims current (cut :: rest) left
        (split ++ [⟨cut.stop, current.stop, current.offset, hstop.le⟩])
  | ending {current cut : Span} {rest split : List Span} {left : Option Span}
      (hintersects : current.intersects cut = true) (hoffset : current.offset = cut.offset)
      (hstart : current.start < cut.start) (hstop : current.stop ≤ cut.stop)
      (hrest : Trims ⟨current.start, cut.start, current.offset, hstart.le⟩ rest left split) :
      Trims current (cut :: rest) left split
  | all {current cut : Span} {rest : List Span}
      (hintersects : current.intersects cut = true) (hoffset : current.offset = cut.offset)
      (hstart : cut.start ≤ current.start) (hstop : current.stop ≤ cut.stop) :
      Trims current (cut :: rest) none []

theorem trims_of_trim (h : trim current cuts = .ok (left, split)) :
    Trims current cuts left split := by
  induction cuts generalizing current left split with
  | nil =>
    cases h
    exact .done current
  | cons cut rest ih =>
    rcases trim_cons_cases current cut rest with ⟨hclear, htrim⟩ | ⟨hintersects, ⟨-, htrim⟩ |
      ⟨hoffset, ⟨hstop, hstart, htrim⟩ | ⟨hstart, hstop, htrim⟩ | ⟨hstart, hstop, htrim⟩ |
        ⟨hstart, hstop, htrim⟩⟩⟩
    all_goals rw [htrim] at h
    · cases h
      exact .clear hclear
    · cases h
    · exact .beginning hintersects hoffset hstart hstop (ih h)
    · obtain ⟨⟨left', split'⟩, hfront, hpair⟩ := exists_of_map_ok h
      cases hpair
      exact .middle hintersects hoffset hstart hstop (ih hfront)
    · exact .ending hintersects hoffset hstart hstop (ih h)
    · cases h
      exact .all hintersects hoffset hstart hstop

/-- Trimming fails only at a cut of another offset. -/
theorem exists_of_trim_error {fault : Fault} (h : trim current cuts = .error fault) :
    fault = .offsetsDiffer .subtraction ∧
      ∃ cut ∈ cuts, current.intersects cut = true ∧ current.offset ≠ cut.offset := by
  induction cuts generalizing current with
  | nil => cases h
  | cons cut rest ih =>
    -- A cut that intersects what is left of the span intersects the span.
    have hback : ∀ {part : Span}, part.IsPart current → trim part rest = .error fault →
        fault = .offsetsDiffer .subtraction ∧
          ∃ cut' ∈ cut :: rest, current.intersects cut' = true ∧ current.offset ≠ cut'.offset := by
      intro part hpart htrim
      obtain ⟨hfault, cut', hcut', hintersects, hoffset⟩ := ih htrim
      exact ⟨hfault, cut', List.mem_cons_of_mem _ hcut', hpart.intersects hintersects,
        hpart.offset_eq ▸ hoffset⟩
    rcases trim_cons_cases current cut rest with ⟨-, htrim⟩ | ⟨hintersects, ⟨hoffset, htrim⟩ |
      ⟨-, ⟨hstop, -, htrim⟩ | ⟨hstart, hstop, htrim⟩ | ⟨hstart, -, htrim⟩ | ⟨-, -, htrim⟩⟩⟩
    all_goals rw [htrim] at h
    · cases h
    · cases h
      exact ⟨rfl, cut, List.mem_cons_self, hintersects, hoffset⟩
    · obtain ⟨htouches, -⟩ := Span.intersects_iff.mp hintersects
      exact hback (Span.isPart_behind htouches hstop) h
    · obtain ⟨-, htouches, -⟩ := Span.intersects_iff.mp hintersects
      exact hback (Span.isPart_front hstart htouches) (eq_error_of_map_error h)
    · obtain ⟨-, htouches, -⟩ := Span.intersects_iff.mp hintersects
      exact hback (Span.isPart_front hstart htouches) h
    · cases h

namespace Trims

/-- What is left of a span and what is split off are parts of it. -/
theorem isPart (h : Trims current cuts left split) :
    ∀ part ∈ left.toList ++ split, part.IsPart current := by
  induction h with
  | done current => simpa using Span.IsPart.refl current
  | clear hclear => simpa using Span.IsPart.refl _
  | beginning hintersects hoffset hstart hstop hrest ih =>
    intro part hpart
    have hcut := Span.intersects_iff.mp hintersects
    exact (ih part hpart).trans (Span.isPart_behind hcut.1 hstop)
  | middle hintersects hoffset hstart hstop hrest ih =>
    intro part hpart
    have hcut := Span.intersects_iff.mp hintersects
    rw [← List.append_assoc] at hpart
    rcases List.mem_append.mp hpart with hpart | hpart
    · exact (ih part hpart).trans (Span.isPart_front hstart hcut.2.1)
    · rw [List.mem_singleton.mp hpart]
      exact Span.isPart_behind hcut.1 hstop
  | ending hintersects hoffset hstart hstop hrest ih =>
    intro part hpart
    have hcut := Span.intersects_iff.mp hintersects
    exact (ih part hpart).trans (Span.isPart_front hstart hcut.2.1)
  | all => simp

/-- **A position of the span stays, if no cut with its offset holds it.** -/
theorem keeps (h : Trims current cuts left split) (hp : current.Holds p) :
    (∃ cut ∈ cuts, cut.offset = current.offset ∧ cut.Holds p) ∨
      ∃ part ∈ left.toList ++ split, part.Holds p := by
  induction h with
  | done current => exact .inr ⟨current, by simp, hp⟩
  | clear hclear => exact .inr ⟨_, by simp, hp⟩
  | @beginning current cut rest split left hintersects hoffset hstart hstop hrest ih =>
    by_cases hcut : cut.Holds p
    · exact .inl ⟨cut, List.mem_cons_self, hoffset.symm, hcut⟩
    · simp only [Span.Holds] at hp hcut
      rcases ih ⟨by dsimp only; omega, hp.2⟩ with ⟨cut', hcut', hkept⟩ | hkept
      · exact .inl ⟨cut', List.mem_cons_of_mem _ hcut', hkept⟩
      · exact .inr hkept
  | @middle current cut rest split left hintersects hoffset hstart hstop hrest ih =>
    by_cases hcut : cut.Holds p
    · exact .inl ⟨cut, List.mem_cons_self, hoffset.symm, hcut⟩
    · simp only [Span.Holds] at hp hcut
      rw [← List.append_assoc]
      by_cases hfront : p < cut.start
      · rcases ih ⟨hp.1, hfront⟩ with ⟨cut', hcut', hkept⟩ | ⟨part, hpart, hkept⟩
        · exact .inl ⟨cut', List.mem_cons_of_mem _ hcut', hkept⟩
        · exact .inr ⟨part, List.mem_append_left _ hpart, hkept⟩
      · refine .inr ⟨_, List.mem_append_right _ (List.mem_singleton_self _), ?_, hp.2⟩
        dsimp only
        omega
  | @ending current cut rest split left hintersects hoffset hstart hstop hrest ih =>
    by_cases hcut : cut.Holds p
    · exact .inl ⟨cut, List.mem_cons_self, hoffset.symm, hcut⟩
    · simp only [Span.Holds] at hp hcut
      rcases ih ⟨hp.1, by dsimp only; omega⟩ with ⟨cut', hcut', hkept⟩ | hkept
      · exact .inl ⟨cut', List.mem_cons_of_mem _ hcut', hkept⟩
      · exact .inr hkept
  | @all current cut rest hintersects hoffset hstart hstop =>
    refine .inl ⟨cut, List.mem_cons_self, hoffset.symm, ?_⟩
    exact ⟨hstart.trans hp.1, hp.2.trans_le hstop⟩

/-- A span stays as it is before cuts that do not intersect it. -/
theorem eq_of_forall (h : Trims current cuts left split)
    (hclear : ∀ d ∈ cuts, current.intersects d = false) : left = some current ∧ split = [] := by
  cases h with
  | done => exact ⟨rfl, rfl⟩
  | clear => exact ⟨rfl, rfl⟩
  | beginning hintersects | middle hintersects | ending hintersects | all hintersects =>
    exact absurd ((hclear _ List.mem_cons_self).symm.trans hintersects) Bool.false_ne_true

/-- What a span is trimmed to, by cuts each clear of the next one that begin in the span or behind
its start: pieces one clear of the next, without a position of a cut in the first one.  A cut that
shares a position with the span has its offset, or shares a position with a piece that has been
split off. -/
structure Exact (current : Span) (cuts : List Span) (left : Option Span) (split : List Span) :
    Prop where
  clear : (left.toList ++ split).Pairwise Span.Clear
  kept : ∀ a ∈ left, ∀ d ∈ cuts, ¬ a.Shares d
  found : ∀ d ∈ cuts, current.Shares d →
    d.offset = current.offset ∨ ∃ part ∈ split, part.Shares d

/-- The front of a span before a cut does not intersect the cuts that follow. -/
theorem front_intersects (hfront : front.stop = cut.start) (hne : front.start < front.stop)
    (hclear : cut.Clear d) : front.intersects d = false := by
  have hcut := cut.start_le_stop
  rw [Span.clear_iff] at hclear
  rw [← Bool.not_eq_true, Span.intersects_iff]
  omega

/-- What stops before a cut shares no position with it, nor with the cuts that follow. -/
theorem not_shares_of_stop_le {a : Span} (h : a.stop ≤ cut.start)
    (hcuts : (cut :: rest).Pairwise Span.Clear) : ∀ d ∈ cut :: rest, ¬ a.Shares d := by
  intro d hd hshares
  have hcut := cut.start_le_stop
  rw [Span.shares_iff] at hshares
  rcases List.mem_cons.mp hd with rfl | hd
  · omega
  · have hbehind := ((List.pairwise_cons.mp hcuts).1 d hd).1
    omega

theorem exact (h : Trims current cuts left split) (hcuts : cuts.Pairwise Span.Clear)
    (hfacing : ∀ d ∈ cuts, current.intersects d = true ∨ current.start ≤ d.start) :
    Exact current cuts left split := by
  induction h with
  | done => exact ⟨by simp, by simp, by simp⟩
  | @clear current cut rest hclear =>
    have hbehind : current.stop ≤ cut.start := by
      rcases hfacing cut List.mem_cons_self with hintersects | hstart
      · exact absurd (hclear.symm.trans hintersects) Bool.false_ne_true
      · have hcut := cut.start_le_stop
        rw [← Bool.not_eq_true, Span.intersects_iff] at hclear
        omega
    have hshares := not_shares_of_stop_le hbehind hcuts
    exact ⟨by simp, by simpa using hshares, fun d hd h => absurd h (hshares d hd)⟩
  | @beginning current cut rest split left hintersects hoffset hstart hstop hrest ih =>
    obtain ⟨hcut, hcuts⟩ := List.pairwise_cons.mp hcuts
    obtain ⟨hclear, hkept, hfound⟩ := ih hcuts fun d hd => .inr (hcut d hd).1
    refine ⟨hclear, ?_, ?_⟩
    · intro a ha d hd
      rcases List.mem_cons.mp hd with rfl | hd
      · have hpart : d.stop ≤ a.start :=
          (hrest.isPart a (by simp [Option.mem_def.mp ha])).start_le
        rw [Span.shares_iff]
        omega
      · exact hkept a ha d hd
    · intro d hd hshares
      rcases List.mem_cons.mp hd with rfl | hd
      · exact .inl hoffset.symm
      · have hbehind := (hcut d hd).1
        refine hfound d hd ?_
        rw [Span.shares_iff] at hshares ⊢
        dsimp only
        omega
  | @middle current cut rest split left hintersects hoffset hstart hstop hrest ih =>
    have hcut := (List.pairwise_cons.mp hcuts).1
    obtain ⟨rfl, rfl⟩ := hrest.eq_of_forall fun d hd => front_intersects rfl hstart (hcut d hd)
    have hcutstop := cut.start_le_stop
    refine ⟨?_, ?_, ?_⟩
    · refine List.pairwise_pair.mpr ?_
      rw [Span.clear_iff]
      dsimp only
      omega
    · rintro a ⟨rfl⟩
      exact not_shares_of_stop_le le_rfl hcuts
    · intro d hd hshares
      rcases List.mem_cons.mp hd with rfl | hd
      · exact .inl hoffset.symm
      · have hbehind := (hcut d hd).1
        refine .inr ⟨_, List.mem_append_right _ (List.mem_singleton_self _), ?_⟩
        rw [Span.shares_iff] at hshares ⊢
        dsimp only
        omega
  | @ending current cut rest split left hintersects hoffset hstart hstop hrest ih =>
    have hcut := (List.pairwise_cons.mp hcuts).1
    obtain ⟨rfl, rfl⟩ := hrest.eq_of_forall fun d hd => front_intersects rfl hstart (hcut d hd)
    refine ⟨by simp, ?_, ?_⟩
    · rintro a ⟨rfl⟩
      exact not_shares_of_stop_le le_rfl hcuts
    · intro d hd hshares
      rcases List.mem_cons.mp hd with rfl | hd
      · exact .inl hoffset.symm
      · have hbehind := (hcut d hd).1
        rw [Span.shares_iff] at hshares
        omega
  | @all current cut rest hintersects hoffset hstart hstop =>
    refine ⟨by simp, by simp, ?_⟩
    intro d hd hshares
    rcases List.mem_cons.mp hd with rfl | hd
    · exact .inl hoffset.symm
    · have hbehind := ((List.pairwise_cons.mp hcuts).1 d hd).1
      rw [Span.shares_iff] at hshares
      omega

end Trims

/-! ## 3. The queue -/

/-- **How cuts are taken out of the spans of a queue.**  A span that no cut intersects stays.  For
another one the cuts before the first that intersects it are passed for good; what is split off of
it goes back to the front of the queue. -/
inductive CutsTo : List Span → List Span → List Span → Prop
  | nil (cuts : List Span) : CutsTo [] cuts []
  | spared {current : Span} {waiting cuts rest : List Span}
      (hclear : ∀ d ∈ cuts, current.intersects d = false) (hrest : CutsTo waiting cuts rest) :
      CutsTo (current :: waiting) cuts (current :: rest)
  | trimmed {current cut : Span} {waiting passed ahead split rest : List Span}
      {left : Option Span} (hpassed : ∀ d ∈ passed, current.intersects d = false)
      (hintersects : current.intersects cut = true)
      (htrims : Trims current (cut :: ahead) left split)
      (hrest : CutsTo (split ++ waiting) (cut :: ahead) rest) :
      CutsTo (current :: waiting) (passed ++ cut :: ahead) (left.toList ++ rest)

/-- The cuts of a span: those it passes, and the first that intersects it with all behind. -/
theorem passed_or_ahead (current : Span) (cuts : List Span) :
    (∀ d ∈ cuts.takeWhile fun cut => !current.intersects cut, current.intersects d = false) ∧
      ∀ cut ahead, (cuts.dropWhile fun cut => !current.intersects cut) = cut :: ahead →
        current.intersects cut = true := by
  constructor
  · intro d hd
    simpa using List.mem_takeWhile_imp hd
  · intro cut ahead hahead
    have hne : (cuts.dropWhile fun cut => !current.intersects cut) ≠ [] := by simp [hahead]
    simpa [hahead] using List.head_dropWhile_not (fun cut => !current.intersects cut) hne

theorem cutsTo_of_cutQueue (h : cutQueue queue cuts = .ok rest) : CutsTo queue cuts rest := by
  fun_induction cutQueue queue cuts generalizing rest
  case case1 cuts =>
    cases h
    exact .nil cuts
  case case2 cuts current waiting ahead hnone ih =>
    obtain ⟨others, hothers, rfl⟩ := exists_of_map_ok h
    refine .spared ?_ (ih hothers)
    intro d hd
    simpa using List.dropWhile_eq_nil_iff.mp hnone d hd
  case case3 => cases h
  case case4 cuts current waiting ahead cut others hsome left split htrim ih =>
    obtain ⟨kept, hkept, rfl⟩ := exists_of_map_ok h
    obtain ⟨hpassed, hfirst⟩ := passed_or_ahead current cuts
    have hcuts : cuts = (cuts.takeWhile fun cut => !current.intersects cut) ++ cut :: others := by
      rw [← hsome, List.takeWhile_append_dropWhile]
    rw [hcuts]
    rw [hsome] at htrim hkept ih
    exact .trimmed hpassed (hfirst cut others hsome) (trims_of_trim htrim) (ih hkept)

/-- **Cutting fails only if a span of the queue and a cut intersect that have different offsets.** -/
theorem exists_of_cutQueue_error {fault : Fault} (h : cutQueue queue cuts = .error fault) :
    fault = .offsetsDiffer .subtraction ∧
      ∃ a ∈ queue, ∃ d ∈ cuts, a.intersects d = true ∧ a.offset ≠ d.offset := by
  fun_induction cutQueue queue cuts with
  | case1 cuts => cases h
  | case2 cuts current waiting ahead hnone ih =>
    obtain ⟨hfault, a, ha, hclash⟩ := ih (eq_error_of_map_error h)
    exact ⟨hfault, a, List.mem_cons_of_mem _ ha, hclash⟩
  | case3 cuts current waiting ahead cut others hsome fault' htrim =>
    cases h
    obtain ⟨hfault, d, hd, hclash⟩ := exists_of_trim_error htrim
    exact ⟨hfault, current, List.mem_cons_self, d, (List.dropWhile_sublist _).subset hd, hclash⟩
  | case4 cuts current waiting ahead cut others hsome left split htrim ih =>
    obtain ⟨hfault, a, ha, d, hd, hintersects, hoffset⟩ := ih (eq_error_of_map_error h)
    have hd := (List.dropWhile_sublist _).subset hd
    rcases List.mem_append.mp ha with ha | ha
    · have hpart := (trims_of_trim htrim).isPart a (List.mem_append_right _ ha)
      exact ⟨hfault, current, List.mem_cons_self, d, hd, hpart.intersects hintersects,
        hpart.offset_eq ▸ hoffset⟩
    · exact ⟨hfault, a, List.mem_cons_of_mem _ ha, d, hd, hintersects, hoffset⟩

namespace CutsTo

/-- What is left are parts of the spans of the queue. -/
theorem exists_isPart (h : CutsTo queue cuts rest) : ∀ part ∈ rest,
    ∃ a ∈ queue, part.IsPart a := by
  induction h with
  | nil => simp
  | @spared current waiting cuts rest hclear hrest ih =>
    intro part hpart
    rcases List.mem_cons.mp hpart with rfl | hpart
    · exact ⟨part, List.mem_cons_self, .refl part⟩
    · obtain ⟨a, ha, hpart⟩ := ih part hpart
      exact ⟨a, List.mem_cons_of_mem _ ha, hpart⟩
  | @trimmed current cut waiting passed ahead split rest left hpassed hintersects htrims hrest ih =>
    intro part hpart
    rcases List.mem_append.mp hpart with hpart | hpart
    · exact ⟨current, List.mem_cons_self, htrims.isPart part (List.mem_append_left _ hpart)⟩
    · obtain ⟨a, ha, hpart⟩ := ih part hpart
      rcases List.mem_append.mp ha with ha | ha
      · exact ⟨current, List.mem_cons_self,
          hpart.trans (htrims.isPart a (List.mem_append_right _ ha))⟩
      · exact ⟨a, List.mem_cons_of_mem _ ha, hpart⟩

/-- **What the queue has covered is covered by the cuts or is still covered.** -/
theorem covered (h : CutsTo queue cuts rest) (hp : Covered queue offset p) :
    Covered cuts offset p ∨ Covered rest offset p := by
  induction h with
  | nil => exact absurd hp covered_nil
  | spared hclear hrest ih =>
    rcases covered_cons.mp hp with hp | hp
    · exact .inr (covered_cons.mpr (.inl hp))
    · exact (ih hp).imp_right fun hp => covered_cons.mpr (.inr hp)
  | @trimmed current cut waiting passed ahead split rest left hpassed hintersects htrims hrest ih =>
    have hback : Covered (split ++ waiting) offset p →
        Covered (passed ++ cut :: ahead) offset p ∨ Covered (left.toList ++ rest) offset p := by
      intro hp
      rcases ih hp with hp | hp
      · exact .inl (covered_append.mpr (.inr hp))
      · exact .inr (covered_append.mpr (.inr hp))
    rcases covered_cons.mp hp with ⟨hoffset, hp⟩ | hp
    · rcases htrims.keeps hp with ⟨d, hd, hsame, hp⟩ | ⟨part, hpart, hp⟩
      · exact .inl ⟨d, List.mem_append_right _ hd, hsame.trans hoffset, hp⟩
      · have hsame := (htrims.isPart part hpart).offset_eq.trans hoffset
        rcases List.mem_append.mp hpart with hpart | hpart
        · exact .inr ⟨part, List.mem_append_left _ hpart, hsame, hp⟩
        · exact hback ⟨part, List.mem_append_left _ hpart, hsame, hp⟩
    · exact hback (covered_append.mpr (.inr hp))

/-! ### Spans and cuts, each clear of the next one -/

/-- What is not passed begins in the span or behind its start. -/
theorem facing (hintersects : current.intersects cut = true)
    (hcuts : (cut :: ahead).Pairwise Span.Clear) :
    ∀ d ∈ cut :: ahead, current.intersects d = true ∨ current.start ≤ d.start := by
  intro d hd
  obtain ⟨htouches, -⟩ := Span.intersects_iff.mp hintersects
  rcases List.mem_cons.mp hd with rfl | hd
  · exact .inl hintersects
  · exact .inr (htouches.trans ((List.pairwise_cons.mp hcuts).1 d hd).1)

/-- The cuts that a span has passed share no position with what starts no earlier than it. -/
theorem not_shares_passed {a : Span} (hpassed : ∀ d ∈ passed, current.intersects d = false)
    (hintersects : current.intersects cut = true)
    (hcuts : (passed ++ cut :: ahead).Pairwise Span.Clear) (ha : current.start ≤ a.start) :
    ∀ d ∈ passed, ¬ a.Shares d := by
  intro d hd hshares
  have hcurrent := current.start_le_stop
  have hdstop := d.start_le_stop
  have hclear := (List.pairwise_append.mp hcuts).2.2 d hd cut List.mem_cons_self
  have hmiss := hpassed d hd
  rw [← Bool.not_eq_true, Span.intersects_iff] at hmiss
  rw [Span.intersects_iff] at hintersects
  rw [Span.clear_iff] at hclear
  rw [Span.shares_iff] at hshares
  omega

/-- What is left of the first span, what is split off of it and what waits behind it. -/
theorem pairwise_next (htrims : Trims current (cut :: ahead) left split)
    (hintersects : current.intersects cut = true) (hcuts : (cut :: ahead).Pairwise Span.Clear)
    (hqueue : (current :: waiting).Pairwise Span.Clear) :
    (left.toList ++ (split ++ waiting)).Pairwise Span.Clear := by
  obtain ⟨hcurrent, hwaiting⟩ := List.pairwise_cons.mp hqueue
  rw [← List.append_assoc]
  refine List.pairwise_append.mpr ⟨?_, hwaiting, ?_⟩
  · exact (htrims.exact hcuts (facing hintersects hcuts)).clear
  · intro part hpart a ha
    exact (htrims.isPart part hpart).clear (hcurrent a ha)

/-- All of that starts no earlier than the span. -/
theorem start_le_next (htrims : Trims current (cut :: ahead) left split)
    (hqueue : (current :: waiting).Pairwise Span.Clear) :
    ∀ a ∈ left.toList ++ (split ++ waiting), current.start ≤ a.start := by
  intro a ha
  rw [← List.append_assoc] at ha
  rcases List.mem_append.mp ha with ha | ha
  · exact (htrims.isPart a ha).start_le
  · exact current.start_le_stop.trans ((List.pairwise_cons.mp hqueue).1 a ha).1

/-- **What is left is clear of what is left behind it.** -/
theorem pairwise (h : CutsTo queue cuts rest) (hqueue : queue.Pairwise Span.Clear)
    (hcuts : cuts.Pairwise Span.Clear) : rest.Pairwise Span.Clear := by
  induction h with
  | nil => exact .nil
  | spared hclear hrest ih =>
    obtain ⟨hcurrent, hwaiting⟩ := List.pairwise_cons.mp hqueue
    refine List.pairwise_cons.mpr ⟨?_, ih hwaiting hcuts⟩
    intro part hpart
    obtain ⟨a, ha, hpart⟩ := hrest.exists_isPart part hpart
    exact hpart.clear_right (hcurrent a ha)
  | trimmed hpassed hintersects htrims hrest ih =>
    have hahead := (List.pairwise_append.mp hcuts).2.1
    obtain ⟨hleft, hnext, hbetween⟩ :=
      List.pairwise_append.mp (pairwise_next htrims hintersects hahead hqueue)
    refine List.pairwise_append.mpr ⟨hleft, ih hnext hahead, ?_⟩
    intro a ha part hpart
    obtain ⟨b, hb, hpart⟩ := hrest.exists_isPart part hpart
    exact hpart.clear_right (hbetween a ha b hb)

/-- **What is left shares no position with a cut.** -/
theorem not_shares (h : CutsTo queue cuts rest) (hqueue : queue.Pairwise Span.Clear)
    (hcuts : cuts.Pairwise Span.Clear) : ∀ a ∈ rest, ∀ d ∈ cuts, ¬ a.Shares d := by
  induction h with
  | nil => simp
  | spared hclear hrest ih =>
    intro a ha d hd
    rcases List.mem_cons.mp ha with rfl | ha
    · exact fun hshares => Bool.false_ne_true ((hclear d hd).symm.trans hshares.intersects)
    · exact ih hqueue.of_cons hcuts a ha d hd
  | trimmed hpassed hintersects htrims hrest ih =>
    have hahead := (List.pairwise_append.mp hcuts).2.1
    have hnext := (List.pairwise_append.mp (pairwise_next htrims hintersects hahead hqueue)).2.1
    have hstart := start_le_next htrims hqueue
    intro a ha d hd
    rcases List.mem_append.mp hd with hd | hd
    · refine not_shares_passed hpassed hintersects hcuts ?_ d hd
      rcases List.mem_append.mp ha with ha | ha
      · exact hstart a (List.mem_append_left _ ha)
      · obtain ⟨b, hb, hpart⟩ := hrest.exists_isPart a ha
        exact (hstart b (List.mem_append_right _ hb)).trans hpart.start_le
    · rcases List.mem_append.mp ha with ha | ha
      · exact (htrims.exact hahead (facing hintersects hahead)).kept a (by simpa using ha) d hd
      · exact ih hnext hahead a ha d hd

/-- **A span and a cut that share a position have one offset**, for the cut is met. -/
theorem offset_eq (h : CutsTo queue cuts rest) (hqueue : queue.Pairwise Span.Clear)
    (hcuts : cuts.Pairwise Span.Clear) :
    ∀ a ∈ queue, ∀ d ∈ cuts, a.Shares d → d.offset = a.offset := by
  induction h with
  | nil => simp
  | spared hclear hrest ih =>
    intro a ha d hd hshares
    rcases List.mem_cons.mp ha with rfl | ha
    · exact absurd ((hclear d hd).symm.trans hshares.intersects) Bool.false_ne_true
    · exact ih hqueue.of_cons hcuts a ha d hd hshares
  | @trimmed current cut waiting passed ahead split rest left hpassed hintersects htrims hrest ih =>
    have hahead := (List.pairwise_append.mp hcuts).2.1
    have hnext := (List.pairwise_append.mp (pairwise_next htrims hintersects hahead hqueue)).2.1
    intro a ha d hd hshares
    rcases List.mem_append.mp hd with hd | hd
    · refine absurd hshares (not_shares_passed hpassed hintersects hcuts ?_ d hd)
      rcases List.mem_cons.mp ha with rfl | ha
      · exact le_rfl
      · exact start_le_next htrims hqueue a (by simp [ha])
    rcases List.mem_cons.mp ha with rfl | ha
    · rcases (htrims.exact hahead (facing hintersects hahead)).found d hd hshares with
        hoffset | ⟨part, hpart, hshares⟩
      · exact hoffset
      -- The rest of the cut is found in the part that has been split off.
      · have hsame := ih hnext hahead part (List.mem_append_left _ hpart) d hd hshares
        exact hsame.trans (htrims.isPart part (List.mem_append_right _ hpart)).offset_eq
    · exact ih hnext hahead a (List.mem_append_right _ ha) d hd hshares

end CutsTo

/-- Without cuts the queue stays as it is. -/
theorem cutQueue_nil (queue : List Span) : cutQueue queue [] = .ok queue := by
  induction queue with
  | nil => rw [cutQueue]
  | cons current waiting ih =>
    rw [cutQueue]
    dsimp only [List.dropWhile_nil]
    rw [ih]
    rfl

/-- A span is its own cut: it is taken away with all behind. -/
theorem trim_self (current : Span) (ahead : List Span) :
    trim current (current :: ahead) = .ok (none, []) := by
  rcases trim_cons_cases current current ahead with ⟨hclear, -⟩ | ⟨-, ⟨hoffset, -⟩ |
    ⟨-, ⟨hstop, -⟩ | ⟨hstart, -⟩ | ⟨hstart, -⟩ | ⟨-, -, htrim⟩⟩⟩
  · exact absurd (hclear.symm.trans current.intersects_self) Bool.false_ne_true
  · exact absurd rfl hoffset
  · exact absurd hstop (Nat.lt_irrefl _)
  · exact absurd hstart (Nat.lt_irrefl _)
  · exact absurd hstart (Nat.lt_irrefl _)
  · exact htrim

/-- **Spans, each clear of the next one, leave nothing when they are taken out of themselves.** -/
theorem cutQueue_self (h : (cuts ++ queue).Pairwise Span.Clear) :
    cutQueue queue (cuts ++ queue) = .ok [] := by
  induction queue generalizing cuts with
  | nil => rw [cutQueue]
  | cons current waiting ih =>
    obtain ⟨-, hqueue, hbetween⟩ := List.pairwise_append.mp h
    have hpassed : ∀ d ∈ cuts, (!current.intersects d) = true := by
      intro d hd
      rw [(hbetween d hd current List.mem_cons_self).not_intersects, Bool.not_false]
    have hahead : ((cuts ++ current :: waiting).dropWhile fun cut => !current.intersects cut) =
        current :: waiting := by
      rw [List.dropWhile_append_of_pos hpassed, List.dropWhile_cons_of_neg]
      simp [Span.intersects_self]
    rw [cutQueue]
    simp only [hahead]
    split
    · next fault htrim =>
      rw [hahead, trim_self] at htrim
      cases htrim
    · next left split htrim =>
      rw [hahead, trim_self] at htrim
      cases htrim
      have hrest : cutQueue waiting ([current] ++ waiting) = .ok [] := ih hqueue
      exact congrArg (Except.map _) hrest

/-! ## 4. Spans and what is to be discarded -/

/-- A span intersects one of another offset that is to be discarded. -/
def Clash (spans discard : List Span) : Prop :=
  ∃ a ∈ spans, ∃ d ∈ discard, a.intersects d = true ∧ a.offset ≠ d.offset

instance (spans discard : List Span) : Decidable (Clash spans discard) :=
  inferInstanceAs (Decidable (∃ a ∈ spans, _))

/-- The queue and the cuts are what the two lists are merged into. -/
theorem exists_subtract (spans discard : List Span) : ∃ queue cuts,
    merge false spans = .ok queue ∧ merge false discard = .ok cuts ∧
      subtract spans discard = cutQueue queue cuts := by
  obtain ⟨queue, hqueue⟩ := exists_merge false spans (by simp)
  obtain ⟨cuts, hcuts⟩ := exists_merge false discard (by simp)
  refine ⟨queue, cuts, hqueue, hcuts, ?_⟩
  rw [subtract, hqueue, hcuts]
  rfl

/-- Merging brings no two spans to meet that clash. -/
theorem clash_of_merge (hqueue : merge false spans = .ok queue)
    (hcuts : merge false discard = .ok cuts) (h : Clash queue cuts) : Clash spans discard := by
  obtain ⟨e, he, f, hf, hintersects, hoffset⟩ := h
  obtain ⟨a, ha, hae, haf⟩ := (inRuns_of_merge hqueue).exists_intersects he hintersects
  obtain ⟨d, hd, hdf, hda⟩ := (inRuns_of_merge hcuts).exists_intersects hf
    (Span.intersects_symm haf)
  refine ⟨a, Span.mem_sort.mp ha, d, Span.mem_sort.mp hd, Span.intersects_symm hda, ?_⟩
  rw [hae, hdf]
  exact hoffset

/-- An empty span is left only if there has been one. -/
theorem exists_isEmpty_of_subtract (h : subtract spans discard = .ok rest)
    (hpart : part ∈ rest) (hempty : part.isEmpty = true) : ∃ a ∈ spans, a.isEmpty = true := by
  obtain ⟨queue, cuts, hqueue, -, hsubtract⟩ := exists_subtract spans discard
  obtain ⟨e, he, hpartOf⟩ :=
    (cutsTo_of_cutQueue (hsubtract.symm.trans h)).exists_isPart part hpart
  have he' : e.isEmpty = true := beq_iff_eq.mpr (hpartOf.isEmpty (beq_iff_eq.mp hempty))
  obtain ⟨a, ha, ha'⟩ := (inRuns_of_merge hqueue).exists_isEmpty he he'
  exact ⟨a, Span.mem_sort.mp ha, ha'⟩

/-- **Whatever the offsets, subtracting fails only if spans clash; it adds no position, and takes
away none but those of spans to discard with its offset.** -/
theorem subtracting_stays_between (spans discard : List Span) :
    (∃ rest, subtract spans discard = .ok rest ∧
      (∀ offset p, Covered rest offset p → Covered spans offset p) ∧
      ∀ offset p, Covered spans offset p → Covered discard offset p ∨ Covered rest offset p) ∨
    (subtract spans discard = .error (.offsetsDiffer .subtraction) ∧ Clash spans discard) := by
  obtain ⟨queue, cuts, hqueue, hcuts, hsubtract⟩ := exists_subtract spans discard
  rw [hsubtract]
  cases hrest : cutQueue queue cuts with
  | error fault =>
    obtain ⟨rfl, hclash⟩ := exists_of_cutQueue_error hrest
    exact .inr ⟨rfl, clash_of_merge hqueue hcuts hclash⟩
  | ok rest =>
    have hcutsTo := cutsTo_of_cutQueue hrest
    refine .inl ⟨rest, rfl, ?_, ?_⟩
    · rintro offset p ⟨part, hpart, hoffset, hp⟩
      obtain ⟨a, ha, hpart⟩ := hcutsTo.exists_isPart part hpart
      exact (covered_of_merge hqueue).mp
        ⟨a, ha, hpart.offset_eq.symm.trans hoffset, hpart.holds hp⟩
    · intro offset p hp
      exact (hcutsTo.covered ((covered_of_merge hqueue).mpr hp)).imp_left (covered_of_merge hcuts).mp

/-- **Exactly the positions to discard are gone where only spans with one offset intersect.**  Spans
that share a position with one to discard have its offset then: that no cut is missed shows in
both. -/
theorem exact_of_subtract (hspans : OffsetsApart spans) (hdiscard : OffsetsApart discard)
    (h : subtract spans discard = .ok rest) :
    rest.Pairwise Span.Clear ∧
      (∀ offset p, Covered rest offset p ↔ Covered spans offset p ∧ ¬ Covered discard offset p) ∧
      ∀ a ∈ spans, ∀ d ∈ discard, a.Shares d → a.offset = d.offset := by
  obtain ⟨queue, cuts, hqueue, hcuts, hsubtract⟩ := exists_subtract spans discard
  have hcutsTo := cutsTo_of_cutQueue (hsubtract.symm.trans h)
  have hclearQueue := clear_of_merge hqueue hspans
  have hclearCuts := clear_of_merge hcuts hdiscard
  refine ⟨hcutsTo.pairwise hclearQueue hclearCuts, ?_, ?_⟩
  · intro offset p
    constructor
    · rintro ⟨part, hpart, hoffset, hp⟩
      obtain ⟨a, ha, hpartOf⟩ := hcutsTo.exists_isPart part hpart
      refine ⟨(covered_of_merge hqueue).mp
        ⟨a, ha, hpartOf.offset_eq.symm.trans hoffset, hpartOf.holds hp⟩, ?_⟩
      intro hdiscarded
      obtain ⟨d, hd, -, hdp⟩ := (covered_of_merge hcuts).mpr hdiscarded
      exact hcutsTo.not_shares hclearQueue hclearCuts part hpart d hd ⟨p, hp, hdp⟩
    · rintro ⟨hp, hdiscarded⟩
      rcases hcutsTo.covered ((covered_of_merge hqueue).mpr hp) with hcut | hp
      · exact absurd ((covered_of_merge hcuts).mp hcut) hdiscarded
      · exact hp
  · rintro a ha d hd ⟨p, hap, hdp⟩
    obtain ⟨e, he, hea, hep⟩ := (covered_of_merge hqueue).mpr ⟨a, ha, rfl, hap⟩
    obtain ⟨f, hf, hfd, hfp⟩ := (covered_of_merge hcuts).mpr ⟨d, hd, rfl, hdp⟩
    rw [← hea, ← hfd]
    exact (hcutsTo.offset_eq hclearQueue hclearCuts e he f hf ⟨p, hep, hfp⟩).symm

/-- **With one offset, subtracting does not fail, and leaves exactly the positions that are not to
be discarded**: sorted, in spans that do not intersect, of which none is empty unless one has been.
Spans leave nothing when they are taken out of themselves, and are only merged if nothing is taken
out. -/
theorem subtracting_removes_positions (spans discard : List Span) (c : Nat)
    (hspans : ∀ a ∈ spans, a.offset = c) (hdiscard : ∀ d ∈ discard, d.offset = c) :
    (∃ rest, subtract spans discard = .ok rest ∧
      (∀ offset p, Covered rest offset p ↔ Covered spans offset p ∧ ¬ Covered discard offset p) ∧
      Span.Sorted rest ∧ (rest.Pairwise fun a b => a.intersects b = false) ∧
      ((∃ a ∈ rest, a.isEmpty = true) → ∃ a ∈ spans, a.isEmpty = true)) ∧
    subtract spans spans = .ok [] ∧ subtract spans [] = merge false spans := by
  have hapart : ∀ {others : List Span}, (∀ a ∈ others, a.offset = c) → OffsetsApart others :=
    fun h a ha b hb _ => (h a ha).trans (h b hb).symm
  refine ⟨?_, ?_, ?_⟩
  · rcases subtracting_stays_between spans discard with ⟨rest, hrest, -⟩ | ⟨-, a, ha, d, hd, -, hne⟩
    · obtain ⟨hclear, hcovered, -⟩ := exact_of_subtract (hapart hspans) (hapart hdiscard) hrest
      refine ⟨rest, hrest, hcovered, Span.sorted_of_clear hclear, hclear.imp And.right, ?_⟩
      rintro ⟨part, hpart, hempty⟩
      exact exists_isEmpty_of_subtract hrest hpart hempty
    · exact absurd ((hspans a ha).trans (hdiscard d hd).symm) hne
  · obtain ⟨queue, cuts, hqueue, hcuts, hsubtract⟩ := exists_subtract spans spans
    cases hqueue.symm.trans hcuts
    have hclear : ([] ++ queue).Pairwise Span.Clear := clear_of_merge hqueue (hapart hspans)
    rw [hsubtract]
    exact cutQueue_self hclear
  · obtain ⟨queue, cuts, hqueue, hcuts, hsubtract⟩ := exists_subtract spans []
    have hruns := inRuns_of_merge hcuts
    rw [Span.sort_of_sorted .nil] at hruns
    rw [hsubtract, hqueue, hruns.eq_nil]
    exact cutQueue_nil queue

/-- Nested, repeated, meeting and empty spans, not in order, of which parts in the middle, at the
border and over a border are taken out, and one whole span. -/
theorem subtracting_removes_positions_unordered :
    let spans : List Span := [⟨20, 30, 3, by decide⟩, ⟨3, 3, 3, by decide⟩, ⟨0, 10, 3, by decide⟩,
      ⟨2, 4, 3, by decide⟩, ⟨10, 12, 3, by decide⟩, ⟨20, 30, 3, by decide⟩,
      ⟨40, 40, 3, by decide⟩, ⟨32, 34, 3, by decide⟩]
    let discard : List Span := [⟨25, 26, 3, by decide⟩, ⟨1, 2, 3, by decide⟩, ⟨8, 21, 3, by decide⟩,
      ⟨5, 5, 3, by decide⟩, ⟨31, 36, 3, by decide⟩, ⟨25, 26, 3, by decide⟩]
    let rest : List Span := [⟨0, 1, 3, by decide⟩, ⟨2, 5, 3, by decide⟩, ⟨5, 8, 3, by decide⟩,
      ⟨21, 25, 3, by decide⟩, ⟨26, 30, 3, by decide⟩, ⟨40, 40, 3, by decide⟩]
    (∀ a ∈ spans, a.offset = 3) ∧ (∀ d ∈ discard, d.offset = 3) ∧
    subtract spans discard = .ok rest ∧
    (∀ offset p, Covered rest offset p ↔ Covered spans offset p ∧ ¬ Covered discard offset p) ∧
    subtract spans spans = .ok [] ∧ subtract spans [] = merge false spans := by
  intro spans discard rest
  have hspans : ∀ a ∈ spans, a.offset = 3 := by decide
  have hdiscard : ∀ d ∈ discard, d.offset = 3 := by decide
  have hrest : subtract spans discard = .ok rest := by cbv
  obtain ⟨⟨rest', hrest', hcovered, -⟩, hself, hnil⟩ :=
    subtracting_removes_positions spans discard 3 hspans hdiscard
  cases hrest.symm.trans hrest'
  exact ⟨hspans, hdiscard, hrest, hcovered, hself, hnil⟩

/-- **Where only spans with one offset intersect in either list, subtracting fails exactly if spans
clash, and otherwise leaves at every offset exactly the positions that are not to be discarded with
it.**  Spans that clash have to share a position: one that is empty may stand at the border of a
span that is taken away before it is met. -/
theorem subtracting_offsets_apart (spans discard : List Span) (hspans : OffsetsApart spans)
    (hdiscard : OffsetsApart discard)
    (hshares : ∀ a ∈ spans, ∀ d ∈ discard, a.intersects d = true → a.offset ≠ d.offset →
      a.Shares d) :
    ((∃ fault, subtract spans discard = .error fault ∧ fault.code = 110901) ↔
      Clash spans discard) ∧
    (¬ Clash spans discard → ∃ rest, subtract spans discard = .ok rest ∧
      ∀ offset p, Covered rest offset p ↔
        Covered spans offset p ∧ ¬ Covered discard offset p) := by
  rcases subtracting_stays_between spans discard with ⟨rest, hrest, -⟩ | ⟨hfault, hclash⟩
  · obtain ⟨-, hcovered, hsame⟩ := exact_of_subtract hspans hdiscard hrest
    refine ⟨⟨?_, ?_⟩, fun _ => ⟨rest, hrest, hcovered⟩⟩
    · rintro ⟨fault, hfault, -⟩
      cases hrest.symm.trans hfault
    · rintro ⟨a, ha, d, hd, hintersects, hoffset⟩
      exact absurd (hsame a ha d hd (hshares a ha d hd hintersects hoffset)) hoffset
  · exact ⟨⟨fun _ => hclash, fun _ => ⟨_, hfault, rfl⟩⟩, fun hno => absurd hclash hno⟩

/-- Two offsets next to each other, once without a clash and once with one. -/
theorem subtracting_offsets_apart_both :
    let spans : List Span := [⟨10, 20, 1, by decide⟩, ⟨0, 10, 0, by decide⟩,
      ⟨30, 40, 0, by decide⟩]
    let discard : List Span := [⟨15, 16, 1, by decide⟩, ⟨2, 3, 0, by decide⟩, ⟨2, 4, 0, by decide⟩]
    let clashing : List Span := [⟨32, 33, 1, by decide⟩, ⟨2, 3, 0, by decide⟩]
    let rest : List Span := [⟨0, 2, 0, by decide⟩, ⟨4, 10, 0, by decide⟩, ⟨10, 15, 1, by decide⟩,
      ⟨16, 20, 1, by decide⟩, ⟨30, 40, 0, by decide⟩]
    (subtract spans discard = .ok rest ∧ ∀ offset p, Covered rest offset p ↔
      Covered spans offset p ∧ ¬ Covered discard offset p) ∧
    Clash spans clashing ∧ ∃ fault, subtract spans clashing = .error fault ∧
      fault.code = 110901 := by
  intro spans discard clashing rest
  have hspans : OffsetsApart spans := by decide
  have hrest : subtract spans discard = .ok rest := by cbv
  have hclash : Clash spans clashing := by decide
  obtain ⟨-, hexact⟩ := subtracting_offsets_apart spans discard hspans (by decide) (by decide)
  obtain ⟨rest', hrest', hcovered⟩ := hexact (by decide)
  cases hrest.symm.trans hrest'
  obtain ⟨hfails, -⟩ := subtracting_offsets_apart spans clashing hspans (by decide) (by decide)
  exact ⟨⟨hrest, hcovered⟩, hclash, hfails.mpr hclash⟩

/-- **The cuts of a span end with the first that does not intersect it, though one behind it does**:
a part to discard is left in the first case, and in the second one spans clash but none is seen. -/
theorem subtracting_leaves_what_stands_behind :
    let spans : List Span := [⟨4, 8, 0, by decide⟩]
    let discard : List Span := [⟨0, 5, 0, by decide⟩, ⟨1, 2, 1, by decide⟩, ⟨6, 7, 0, by decide⟩]
    let clashing : List Span := [⟨0, 5, 0, by decide⟩, ⟨1, 5, 1, by decide⟩]
    (subtract spans discard = .ok [⟨5, 8, 0, by decide⟩] ∧ ¬ Clash spans discard ∧
      ¬ ∃ rest, subtract spans discard = .ok rest ∧ ∀ offset p, Covered rest offset p ↔
        Covered spans offset p ∧ ¬ Covered discard offset p) ∧
    subtract spans clashing = .ok [⟨5, 8, 0, by decide⟩] ∧ Clash spans clashing := by
  intro spans discard clashing
  have hrest : subtract spans discard = .ok [⟨5, 8, 0, by decide⟩] := by cbv
  refine ⟨⟨hrest, by decide, ?_⟩, by cbv, by decide⟩
  rintro ⟨rest, hrest', hcovered⟩
  cases hrest.symm.trans hrest'
  have hleft : Covered [⟨5, 8, 0, by decide⟩] 0 6 := ⟨_, List.mem_singleton_self _, rfl, by decide⟩
  obtain ⟨-, hno⟩ := (hcovered 0 6).mp hleft
  exact hno ⟨⟨6, 7, 0, by decide⟩, by simp [discard], rfl, by decide⟩

end Spans

end TaggedText
