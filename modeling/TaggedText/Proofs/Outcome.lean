/-
# What an action may give

Actions with effects may end in different ways.  `Gives x r` says that `r` is one of the ends of
`x`, a value or a fault.  Nothing is asked of the effects but that their ends can be told, so a fact
about everything that an action gives holds of actions without effects and of actions on a state
alike.
-/
import TaggedText.Query.Plan

namespace TaggedText

open MonadAttach (CanReturn)

/-! ## 1. Values and faults -/

/-- Nothing is left of a part that has not failed. -/
theorem ok_bind {ε α β : Type} (a : α) (f : α → Except ε β) : (Except.ok a >>= f) = f a := rfl

theorem exists_of_bind_ok {ε α β : Type} {x : Except ε α} {f : α → Except ε β} {b : β}
    (h : x.bind f = .ok b) : ∃ a, x = .ok a ∧ f a = .ok b := by
  cases x with
  | error e => cases h
  | ok a => exact ⟨a, rfl, h⟩

theorem exists_of_map_ok {ε α β : Type} {x : Except ε α} {f : α → β} {b : β}
    (h : x.map f = .ok b) : ∃ a, x = .ok a ∧ f a = b := by
  cases x with
  | error e => cases h
  | ok a => exact ⟨a, rfl, Except.ok.inj h⟩

theorem eq_error_of_map_error {ε α β : Type} {x : Except ε α} {f : α → β} {e : ε}
    (h : x.map f = .error e) : x = .error e := by
  cases x with
  | error e' => exact congrArg Except.error (Except.error.inj h)
  | ok a => cases h

/-! ## 2. Actions with effects -/

variable {m : Type → Type} [Monad m] [LawfulMonad m] [MonadAttach m] [LawfulMonadAttach m]
variable {ε α β : Type}

/-- The action may end with this value or fault. -/
def Gives (x : ExceptT ε m α) (r : Except ε α) : Prop := CanReturn x.run r

theorem Gives.of_pure {a : α} {r : Except ε α} (h : Gives (m := m) (pure a) r) : r = .ok a :=
  (LawfulMonadAttach.eq_of_canReturn_pure h).symm

theorem Gives.of_throw {e : ε} {r : Except ε α} (h : Gives (m := m) (throw e) r) :
    r = .error e :=
  (LawfulMonadAttach.eq_of_canReturn_pure h).symm

/-- **A sequence ends with a fault of its first action, or as its second one does.** -/
theorem Gives.of_bind {x : ExceptT ε m α} {f : α → ExceptT ε m β} {r : Except ε β}
    (h : Gives (x >>= f) r) :
    (∃ e, Gives x (.error e) ∧ r = .error e) ∨ ∃ a, Gives x (.ok a) ∧ Gives (f a) r := by
  rw [Gives, ExceptT.run_bind] at h
  obtain ⟨first, hx, h⟩ := LawfulMonadAttach.canReturn_bind_imp' h
  cases first with
  | ok a => exact .inr ⟨a, hx, h⟩
  | error e => exact .inl ⟨e, hx, (LawfulMonadAttach.eq_of_canReturn_pure h).symm⟩

/-- What the first action of a sequence gives: if that is a value, the second one goes on from it.
So for a first action that does not fail, what is known of it need be asked but once. -/
theorem Gives.first {x : ExceptT ε m α} {f : α → ExceptT ε m β} {r : Except ε β}
    (h : Gives (x >>= f) r) : ∃ first, Gives x first ∧ ∀ a, first = .ok a → Gives (f a) r := by
  obtain ⟨e, he, -⟩ | ⟨a, ha, h⟩ := Gives.of_bind h
  · exact ⟨.error e, he, fun a ha => by cases ha⟩
  · exact ⟨.ok a, ha, fun b hb => by cases hb; exact h⟩

/-- An action that gives nothing but one value goes before another one. -/
theorem Gives.of_bind_ok {x : ExceptT ε m α} {a : α} (hx : ∀ first, Gives x first → first = .ok a)
    {f : α → ExceptT ε m β} {r : Except ε β} (h : Gives (x >>= f) r) : Gives (f a) r := by
  obtain ⟨first, hfirst, h⟩ := h.first
  exact h a (hx first hfirst)

/-- An action that cannot fail goes before another one. -/
theorem Gives.of_lift_bind {x : m α} {f : α → ExceptT ε m β} {r : Except ε β}
    (h : Gives (ExceptT.lift x >>= f) r) : ∃ a, CanReturn x a ∧ Gives (f a) r := by
  rw [Gives, ExceptT.run_bind, ExceptT.run_lift, bind_map_left] at h
  exact LawfulMonadAttach.canReturn_bind_imp' h

theorem Gives.of_liftFault {e r : Except Fault α} (h : Gives (Query.liftFault (m := m) e) r) :
    r = e :=
  (LawfulMonadAttach.eq_of_canReturn_pure h).symm

/-- A value that a computation without effects has found, in front of an action. -/
theorem Gives.of_ok_bind {a : α} {f : α → ExceptT ε m β} {r : Except ε β}
    (h : Gives (liftM (Except.ok (ε := ε) a) >>= f) r) : Gives (f a) r :=
  Gives.of_bind_ok (fun _ h => (LawfulMonadAttach.eq_of_canReturn_pure h).symm) h

theorem Gives.of_liftFault_ok_bind {a : α} {f : α → ExceptT Fault m β} {r : Except Fault β}
    (h : Gives (Query.liftFault (.ok a) >>= f) r) : Gives (f a) r :=
  Gives.of_bind_ok (fun _ h => Gives.of_liftFault h) h

/-- Renaming faults leaves values as they are. -/
theorem Gives.of_adapt {ε' : Type} {f : ε → ε'} {x : ExceptT ε m α} {r : Except ε' α}
    (h : Gives (ExceptT.adapt f x) r) : ∃ r', Gives x r' ∧ r = r'.mapError f := by
  obtain ⟨r', hx, rfl⟩ := LawfulMonadAttach.canReturn_map_imp' h
  exact ⟨r', hx, rfl⟩

end TaggedText
