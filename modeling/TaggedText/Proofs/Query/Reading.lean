/-
# What a read expression applies its predicates to

**Every predicate of an expression that was read is applied to columns, at least one, and all of
them in range**: `applied_ofTokens`.  Each token keeps this of everything that has been read so far,
in the frames around open parentheses as well (`applied_step`).
-/
import TaggedText.Proofs.Query.Tree

namespace TaggedText.Query

/-- Every predicate is applied to columns, at least one, and their numbers are below `n`. -/
def Expr.Applied (n : Nat) (e : Expr) : Prop :=
  ∀ l ∈ e.leaves, l.arguments ≠ [] ∧ ∀ c ∈ l.arguments, c < n

namespace Expr

variable {n : Nat}

/-! ## 1. Readings -/

theorem applied_node {connective : Connective} {left right : Expr} :
    (node connective left right).Applied n ↔ left.Applied n ∧ right.Applied n := by
  simp only [Applied, Expr.leaves, List.forall_mem_append]

theorem applied_leaf {predicate : Predicate} {arguments : List Nat} :
    (leaf predicate arguments).Applied n ↔ arguments ≠ [] ∧ ∀ c ∈ arguments, c < n := by
  simp [Applied, Expr.leaves]

theorem applied_joinTo (connective : Connective) {left : Option Expr} {right : Expr}
    (hleft : ∀ e ∈ left, e.Applied n) (hright : right.Applied n) :
    (joinTo connective left right).Applied n := by
  cases left with
  | none => exact hright
  | some left => exact applied_node.mpr ⟨hleft left rfl, hright⟩

/-- The expressions in a frame are applied to columns in range. -/
structure Frame.Applied (n : Nat) (frame : Frame) : Prop where
  alternatives : ∀ e ∈ frame.alternatives, e.Applied n
  conjuncts : ∀ e ∈ frame.conjuncts, e.Applied n

/-- So are those in front of what is expected next; a column that has been read is in range. -/
def Expecting.Applied (n : Nat) : Expecting → Prop
  | .operand frame => frame.Applied n
  | .operator alternatives conjunction =>
    (∀ e ∈ alternatives, e.Applied n) ∧ conjunction.Applied n
  | .opening frame _ => frame.Applied n
  | .column frame _ columns => frame.Applied n ∧ ∀ c ∈ columns, c < n
  | .separator frame _ columns => frame.Applied n ∧ columns ≠ [] ∧ ∀ c ∈ columns, c < n

/-- **Everything that has been read is applied to columns in range.** -/
structure Reading.Applied (n : Nat) (r : Reading) : Prop where
  outer : ∀ frame ∈ r.outer, frame.Applied n
  expecting : r.expecting.Applied n

theorem Frame.applied_empty : Frame.Applied n {} := ⟨by simp, by simp⟩

theorem Reading.applied_complete {outer : List Frame} {frame : Frame} {operand : Expr}
    (houter : ∀ frame ∈ outer, frame.Applied n) (hframe : frame.Applied n)
    (hoperand : operand.Applied n) : (Reading.complete outer frame operand).Applied n :=
  ⟨houter, hframe.alternatives, applied_joinTo .conjunction hframe.conjuncts hoperand⟩

/-! ## 2. Tokens -/

/-- **A token keeps this so.** -/
theorem applied_step {text : String} {v : Vocabulary} {r r' : Reading} {token : Token}
    (hr : r.Applied v.columns) (h : step text v r token = .ok r') : r'.Applied v.columns := by
  obtain ⟨outer, expecting⟩ := r
  obtain ⟨houter, hexpecting⟩ := hr
  cases expecting with
  | operand frame =>
    cases token with
    | opening =>
      cases h
      exact ⟨List.forall_mem_cons.mpr ⟨hexpecting, houter⟩, Frame.applied_empty⟩
    | name name =>
      simp only [step] at h
      split at h
      · cases h
        exact ⟨houter, hexpecting⟩
      · cases h
    | distance comparison n =>
      cases h
      exact ⟨houter, hexpecting⟩
    | _ => cases h
  | opening frame predicate =>
    cases token with
    | opening =>
      cases h
      exact ⟨houter, hexpecting, by simp⟩
    | _ => cases h
  | column frame predicate columns =>
    cases token with
    | number c =>
      simp only [step] at h
      split at h
      · next hc =>
        cases h
        refine ⟨houter, hexpecting.1, by simp, ?_⟩
        exact List.forall_mem_append.mpr ⟨hexpecting.2, by simpa using hc⟩
      · cases h
    | _ => cases h
  | separator frame predicate columns =>
    cases token with
    | comma =>
      cases h
      exact ⟨houter, hexpecting.1, hexpecting.2.2⟩
    | closing =>
      simp only [step] at h
      cases hc : checkArity predicate columns.length with
      | error e => simp [hc, Except.map] at h
      | ok _ =>
        simp only [hc, Except.map, Except.ok.injEq] at h
        subst h
        exact Reading.applied_complete houter hexpecting.1 (applied_leaf.mpr hexpecting.2)
    | _ => cases h
  | operator alternatives conjunction =>
    have hjoined := applied_joinTo .disjunction hexpecting.1 hexpecting.2
    cases token with
    | conjunction =>
      cases h
      exact ⟨houter, hexpecting.1, by simpa using hexpecting.2⟩
    | disjunction =>
      cases h
      exact ⟨houter, by simpa using hjoined, by simp⟩
    | closing =>
      cases outer with
      | nil => cases h
      | cons frame outer =>
        cases h
        obtain ⟨hframe, houter⟩ := List.forall_mem_cons.mp houter
        exact Reading.applied_complete houter hframe hjoined
    | _ => cases outer <;> cases h

theorem applied_finish {text : String} {r : Reading} {e : Expr} (hr : r.Applied n)
    (h : finish text r = .ok e) : e.Applied n := by
  obtain ⟨outer, expecting⟩ := r
  cases expecting with
  | operator alternatives conjunction =>
    cases outer with
    | nil =>
      cases h
      exact applied_joinTo .disjunction hr.expecting.1 hr.expecting.2
    | cons frame outer => cases h
  | _ => cases h

theorem applied_readFrom {text : String} {v : Vocabulary} {e : Expr} :
    ∀ {tokens : List Token} {r : Reading}, r.Applied v.columns →
      readFrom text v r tokens = .ok e → e.Applied v.columns
  | [], r, hr, h => applied_finish hr h
  | token :: rest, r, hr, h => by
    rw [readFrom] at h
    cases hstep : step text v r token with
    | error e => simp [hstep, Except.bind] at h
    | ok r' =>
      rw [hstep] at h
      exact applied_readFrom (applied_step hr hstep) h

/-- **What tokens write is applied to columns in range.** -/
theorem applied_ofTokens {text : String} {v : Vocabulary} {tokens : List Token} {e : Expr}
    (h : ofTokens text v tokens = .ok e) : e.Applied v.columns := by
  have hempty : Reading.Applied v.columns {} := ⟨by simp, Frame.applied_empty⟩
  rw [ofTokens] at h
  split at h
  · cases h
  · exact applied_readFrom hempty h

end Expr

end TaggedText.Query
