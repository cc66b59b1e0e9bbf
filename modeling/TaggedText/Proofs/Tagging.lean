/-
# What tagging does to a document

The tags of a document change by five calls, in any order and with any arguments.  A call keeps the
text and all lists but those of the tags that it names, and every list stays sorted (`Call.keeps`);
so this holds after every sequence of calls (`sorted_afterAll`).

Sorted lists are what the search for a span relies on.  As they stay sorted, the search is right
whenever a span is tagged: **a span is added exactly if the tag does not hold it** (`tagSpan_spec`,
`tagSpans_spec`).
-/
import TaggedText.Document
import TaggedText.Proofs.Spans.Search
import Mathlib.Data.Finset.Card

namespace TaggedText.Document

variable {d d' d'' : Document} {tag : String}

/-! ## 1. What a document holds -/

/-- The spans of a tag; a tag that does not exist has none. -/
def held (d : Document) (tag : String) : List Span := (d.tags.get? tag).getD []

/-- The list of every tag is sorted. -/
def Sorted (d : Document) : Prop := ∀ tag, Span.Sorted (d.held tag)

theorem sorted_ofString (text : String) (lower : Bool) : (ofString text lower).Sorted :=
  fun _ => List.Pairwise.nil

theorem held_put (d : Document) (tag : String) (spans : List Span) :
    held { d with tags := d.tags.put tag spans } tag = spans := by
  rw [held, Tags.get?_put, Option.getD_some]

theorem held_congr (h : d'.tags.get? tag = d.tags.get? tag) : d'.held tag = d.held tag := by
  rw [held, held, h]

/-! ## 2. What a change keeps -/

/-- A document has only changed in the tags that are named, and its lists are sorted. -/
structure Keeps (named : String → Prop) (d d' : Document) : Prop where
  text : d'.text = d.text
  others : ∀ tag, ¬ named tag → d'.tags.get? tag = d.tags.get? tag
  sorted : d'.Sorted

variable {named named' : String → Prop}

theorem Keeps.refl (h : d.Sorted) : Keeps named d d := ⟨rfl, fun _ _ => rfl, h⟩

theorem Keeps.trans (h : Keeps named d d') (h' : Keeps named d' d'') : Keeps named d d'' where
  text := h'.text.trans h.text
  others tag hnot := (h'.others tag hnot).trans (h.others tag hnot)
  sorted := h'.sorted

theorem Keeps.mono (himp : ∀ tag, named tag → named' tag) (h : Keeps named d d') :
    Keeps named' d d' :=
  ⟨h.text, fun tag hnot => h.others tag fun hn => hnot (himp tag hn), h.sorted⟩

/-- **A sorted list put under a name** leaves all other lists as they are. -/
theorem Keeps.put (h : d.Sorted) {spans : List Span} (hspans : Span.Sorted spans) :
    Keeps (· = tag) d { d with tags := d.tags.put tag spans } where
  text := rfl
  others other hne := Tags.get?_put_of_ne hne spans d.tags
  sorted other := by
    by_cases hother : other = tag
    · rw [hother, held_put]
      exact hspans
    · rw [held_congr (Tags.get?_put_of_ne hother spans d.tags)]
      exact h other

/-- Changes one after the other. -/
theorem Keeps.foldl {β : Type} {step : Tagging → β → Tagging} {items : List β}
    (hstep : ∀ t : Tagging, t.document.Sorted → ∀ b ∈ items,
      Keeps named t.document (step t b).document) {t : Tagging} (h : t.document.Sorted) :
    Keeps named t.document (items.foldl step t).document := by
  induction items generalizing t with
  | nil => exact .refl h
  | cons b items ih =>
    have hfirst := hstep t h b List.mem_cons_self
    exact hfirst.trans
      (ih (fun t ht c hc => hstep t ht c (List.mem_cons_of_mem _ hc)) hfirst.sorted)

/-! ## 3. Tagging spans -/

/-- **What tagging a span does**: nothing if the tag holds the span; otherwise the span gets a place
among the spans of the tag. -/
theorem Tagging.add_cases {t : Tagging} (h : t.document.Sorted) (tag : String) (a : Span) :
    (a ∈ t.document.held tag ∧ (add tag t a).document = t.document ∧
      (add tag t a).added = t.added) ∨
    (a ∉ t.document.held tag ∧ (add tag t a).added = t.added + 1 ∧
      ∃ front back, t.document.held tag = front ++ back ∧ Span.Sorted (front ++ a :: back) ∧
        (add tag t a).document =
          { t.document with tags := t.document.tags.put tag (front ++ a :: back) }) := by
  have hfits := Spans.search_fits (h tag) a
  cases hplace : Spans.search (t.document.held tag) a with
  | present i =>
    have hadd : add tag t a = { t with
        notices := t.notices ++ [.alreadyTagged tag a.bounds.1 a.bounds.2] } := by
      rw [held] at hplace
      simp only [add, hplace]
    rw [hplace] at hfits
    exact .inl ⟨List.mem_of_getElem? hfits, by rw [hadd], by rw [hadd]⟩
  | absent i =>
    rw [hplace] at hfits
    obtain ⟨front, back, hsplit, hinsert, hsorted⟩ := hfits.insertIdx (h tag)
    have hadd : add tag t a = { t with
        document := { t.document with tags := t.document.tags.put tag (front ++ a :: back) }
        added := t.added + 1 } := by
      rw [held] at hplace hinsert
      simp only [add, hplace, hinsert]
    exact .inr ⟨hfits.not_mem, by rw [hadd], front, back, hsplit, hsorted, by rw [hadd]⟩

theorem Tagging.keeps_add {t : Tagging} (h : t.document.Sorted) (tag : String) (a : Span) :
    Keeps (· = tag) t.document (add tag t a).document := by
  rcases add_cases h tag a with ⟨-, hsame, -⟩ | ⟨-, -, front, back, -, hsorted, hput⟩
  · rw [hsame]
    exact .refl h
  · rw [hput]
    exact .put h hsorted

/-- Some spans were tagged: the tag holds these spans too, and all that it did not hold before were
counted, each once. -/
structure Tagging.Adds (tag : String) (spans : List Span) (t t' : Tagging) : Prop where
  mem : ∀ b, b ∈ t'.document.held tag ↔ b ∈ t.document.held tag ∨ b ∈ spans
  added : t'.added = t.added + (spans.toFinset \ (t.document.held tag).toFinset).card

theorem Tagging.Adds.nil (t : Tagging) : Adds tag [] t t := ⟨by simp, by simp⟩

/-- **Counts add up**: what the first spans have brought is not new among the second. -/
theorem Tagging.Adds.trans {front back : List Span} {t t' t'' : Tagging}
    (h : Adds tag front t t') (h' : Adds tag back t' t'') : Adds tag (front ++ back) t t'' where
  mem b := by rw [h'.mem, h.mem, List.mem_append, or_assoc]
  added := by
    have hheld : (t'.document.held tag).toFinset =
        (t.document.held tag).toFinset ∪ front.toFinset := by
      ext b
      simp [h.mem]
    have hunion : (front ++ back).toFinset \ (t.document.held tag).toFinset =
        (front.toFinset \ (t.document.held tag).toFinset) ∪
          (back.toFinset \ (t'.document.held tag).toFinset) := by
      ext b
      simp only [hheld, List.toFinset_append, Finset.mem_sdiff, Finset.mem_union]
      tauto
    have hdisjoint : Disjoint (front.toFinset \ (t.document.held tag).toFinset)
        (back.toFinset \ (t'.document.held tag).toFinset) := by
      rw [Finset.disjoint_left]
      intro b hb
      simp_all
    rw [h'.added, h.added, hunion, Finset.card_union_of_disjoint hdisjoint, Nat.add_assoc]

theorem Tagging.adds_add {t : Tagging} (h : t.document.Sorted) (tag : String) (a : Span) :
    Adds tag [a] t (add tag t a) := by
  rcases add_cases h tag a with ⟨hmem, hsame, hadded⟩ | ⟨hnot, hadded, front, back, hsplit, -, hput⟩
  · refine ⟨fun b => ?_, ?_⟩
    · rw [hsame, List.mem_singleton]
      exact ⟨.inl, fun hb => hb.elim id fun hba => hba ▸ hmem⟩
    · rw [hadded]
      simp [hmem]
  · refine ⟨fun b => ?_, ?_⟩
    · rw [hput, held_put, hsplit]
      simp only [List.mem_append, List.mem_cons]
      tauto
    · have hnew : a ∉ (t.document.held tag).toFinset := by simpa using hnot
      rw [hadded, List.toFinset_cons, List.toFinset_nil, Finset.insert_sdiff_of_notMem _ hnew]
      simp

/-- **Spans are tagged one by one.** -/
theorem Tagging.adds_foldl {spans : List Span} {t : Tagging} (h : t.document.Sorted)
    (tag : String) : Adds tag spans t (spans.foldl (add tag) t) := by
  induction spans generalizing t with
  | nil => exact .nil t
  | cons a spans ih => exact (adds_add h tag a).trans (ih (keeps_add h tag a).sorted)

/-- **What tagging spans does**: the tag exists afterwards. -/
theorem tagSpans_spec (h : d.Sorted) (tag : String) (spans : List Span) :
    (∃ after, (d.tagSpans tag spans).document.tags.get? tag = some after) ∧
      Tagging.Adds tag spans ⟨d, 0, []⟩ (d.tagSpans tag spans) ∧
      Keeps (· = tag) d (d.tagSpans tag spans).document := by
  have hadds : Tagging.Adds tag spans ⟨d, 0, []⟩ (spans.foldl (Tagging.add tag) ⟨d, 0, []⟩) :=
    Tagging.adds_foldl h tag
  have hkeeps : Keeps (· = tag) d (spans.foldl (Tagging.add tag) ⟨d, 0, []⟩).document :=
    Keeps.foldl (t := ⟨d, 0, []⟩) (fun t ht a _ => Tagging.keeps_add ht tag a) h
  unfold tagSpans
  generalize spans.foldl (Tagging.add tag) ⟨d, 0, []⟩ = t at hadds hkeeps ⊢
  cases htag : t.document.tags.get? tag with
  | some after =>
    simp only [htag]
    exact ⟨⟨after, rfl⟩, hadds, hkeeps⟩
  | none =>
    have hheld : t.document.held tag = [] := by rw [held, htag, Option.getD_none]
    simp only [htag]
    refine ⟨⟨[], Tags.get?_put tag [] t.document.tags⟩, ⟨fun b => ?_, hadds.added⟩,
      hkeeps.trans (.put hkeeps.sorted List.Pairwise.nil)⟩
    rw [← hadds.mem, hheld, held_put]

/-! ## 4. Calls -/

/-- A call that changes the tags of a document. -/
inductive Call where
  | pattern (tag pattern : String) (group : Nat) (overlapped : Bool)
  | span (tag : String) (a : Span)
  | spans (tag : String) (spans : List Span)
  | lists (stem : String) (lists : List (List Span))
  | delete (tag : String)

/-- The document after a call, whether the call fails or not. -/
def Call.after [Pattern.Engine] (d : Document) : Call → Document
  | .pattern tag source group overlapped => (d.tagMatches tag source group overlapped).1
  | .span tag a => (d.tagSpan tag a).document
  | .spans tag new => (d.tagSpans tag new).document
  | .lists stem new => (d.tagLists stem new).document
  | .delete tag => (d.deleteTag tag).1

/-- The tags that a call is about. -/
def Call.Names : Call → (tag : String) → Prop
  | .pattern named _ _ _, tag | .span named _, tag | .spans named _, tag | .delete named, tag =>
    tag = named
  | .lists stem new, tag => ∃ i < new.length, tag = stem ++ "_" ++ i.repr

/-- The document after calls, one after the other. -/
def afterAll [Pattern.Engine] (d : Document) (calls : List Call) : Document := calls.foldl Call.after d

/-- **What a call for a new tag does**: it fails and leaves the document as it is, or there was no
such tag and there is one now. -/
theorem tagMatches_cases [Pattern.Engine] (d : Document) (tag pattern : String) (group : Nat)
    (overlapped : Bool) :
    (∃ fault, d.tagMatches tag pattern group overlapped = (d, .error fault)) ∨
      d.tags.get? tag = none ∧ ∃ spans, Span.Sorted spans ∧
        d.tagMatches tag pattern group overlapped =
          ({ d with tags := d.tags.put tag spans }, .ok spans.length) := by
  unfold tagMatches
  cases htag : d.tags.get? tag with
  | some spans => exact .inl ⟨_, rfl⟩
  | none =>
    cases Pattern.Engine.compile? pattern.toList with
    | none => exact .inl ⟨_, rfl⟩
    | some f => exact .inr ⟨rfl, _, Span.sorted_sort _, rfl⟩

theorem keeps_tagMatches [Pattern.Engine] (h : d.Sorted) (tag pattern : String) (group : Nat)
    (overlapped : Bool) :
    Keeps (· = tag) d (d.tagMatches tag pattern group overlapped).1 := by
  rcases d.tagMatches_cases tag pattern group overlapped with
    ⟨fault, hfails⟩ | ⟨-, spans, hsorted, hmade⟩
  · rw [hfails]
    exact .refl h
  · rw [hmade]
    exact .put h hsorted

theorem keeps_tagLists (h : d.Sorted) (stem : String) (lists : List (List Span)) :
    Keeps (Call.lists stem lists).Names d (d.tagLists stem lists).document := by
  refine Keeps.foldl (t := ⟨d, 0, []⟩) (fun t ht item hitem => ?_) h
  obtain ⟨spans, i⟩ := item
  refine (tagSpans_spec ht (stem ++ "_" ++ i.repr) spans).2.2.mono fun tag htag => ?_
  exact ⟨i, by simpa using (List.mem_zipIdx hitem).2.1, htag⟩

theorem keeps_deleteTag (h : d.Sorted) (tag : String) : Keeps (· = tag) d (d.deleteTag tag).1 := by
  unfold deleteTag
  cases htag : d.tags.get? tag with
  | none => exact .refl h
  | some spans =>
    refine ⟨rfl, fun other hne => Tags.get?_erase_of_ne hne d.tags, fun other => ?_⟩
    by_cases hother : other = tag
    · rw [held, hother, Tags.get?_erase]
      exact List.Pairwise.nil
    · rw [held_congr (Tags.get?_erase_of_ne hother d.tags)]
      exact h other

/-- **A call changes nothing but the tags it names**, and leaves sorted lists sorted. -/
theorem Call.keeps [Pattern.Engine] (h : d.Sorted) (c : Call) : Keeps c.Names d (c.after d) := by
  cases c with
  | pattern tag source group overlapped => exact keeps_tagMatches h tag source group overlapped
  | span tag a => exact Tagging.keeps_add (t := ⟨d, 0, []⟩) h tag a
  | spans tag new => exact (tagSpans_spec h tag new).2.2
  | lists stem new => exact keeps_tagLists h stem new
  | delete tag => exact keeps_deleteTag h tag

/-- **After any calls all lists are sorted.** -/
theorem sorted_afterAll [Pattern.Engine] (h : d.Sorted) (calls : List Call) :
    (d.afterAll calls).Sorted := by
  induction calls generalizing d with
  | nil => exact h
  | cons c calls ih => exact ih (c.keeps h).sorted

end TaggedText.Document
