import ApiReference.Diagnostics.Traced

/-!
# Outcomes

What a computation with notices ends with does not depend on its notices: its outcome
is put together from the outcomes of its steps.  `Yields` says that an outcome is a
value, and not a fault, and what is known of the value; `Ensures` says what is known of
the value if there is one.  Both go through a computation step by step (`Yields.bind`,
`Ensures.bind`).
-/

namespace ApiReference

variable {α β : Type}

namespace Traced

@[simp] theorem outcome_pure (a : α) : outcome (pure a : Traced α) = .ok a := rfl

@[simp] theorem outcome_bind (x : Traced α) (f : α → Traced β) :
    outcome (x >>= f) = outcome x >>= fun a => outcome (f a) := by
  rw [outcome, outcome, ExceptT.run_bind, Noted.value_bind]
  cases (ExceptT.run x).value <;> rfl

@[simp] theorem outcome_liftExcept (x : Except Fault α) :
    outcome (liftM x : Traced α) = x := rfl

/-- Notices alone stop nothing. -/
@[simp] theorem outcome_liftNoted (x : Noted α) :
    outcome (liftM x : Traced α) = .ok x.value := rfl

@[simp] theorem outcome_fail (fault : Fault) : outcome (fail fault : Traced α) = .error fault := rfl

@[simp] theorem outcome_throw (fault : Fault) :
    outcome (throw fault : Traced α) = .error fault := rfl

end Traced

@[simp] theorem Except.ok_bind {ε : Type} (a : α) (f : α → Except ε β) :
    (Except.ok a >>= f) = f a := rfl

@[simp] theorem Except.error_bind {ε : Type} (e : ε) (f : α → Except ε β) :
    ((Except.error e : Except ε α) >>= f) = .error e := rfl

/-- A computation that has come to a value has come to one at each of its steps. -/
theorem bind_eq_ok {ε : Type} {x : Except ε α} {f : α → Except ε β} {b : β} :
    (x >>= f) = .ok b ↔ ∃ a, x = .ok a ∧ f a = .ok b := by
  cases x <;> simp

theorem exists_eq_ok {x : Except Fault α} (h : x.toOption.isSome = true) : ∃ a, x = .ok a := by
  cases x with
  | error fault => cases h
  | ok a => exact ⟨a, rfl⟩

theorem exists_eq_ok_and {x : Except Fault α} {p : α → Bool} (h : x.toOption.any p = true) :
    ∃ a, x = .ok a ∧ p a = true := by
  cases x with
  | error fault => cases h
  | ok a => exact ⟨a, rfl, h⟩

/-- An outcome is a value, and the value has a property. -/
def Yields (x : Except Fault α) (P : α → Prop) : Prop := ∃ a, x = .ok a ∧ P a

namespace Yields

variable {x : Except Fault α} {f : α → Except Fault β} {P Q : α → Prop} {R : β → Prop} {a : α}

theorem pure (h : P a) : Yields (pure a : Except Fault α) P := ⟨a, rfl, h⟩

theorem of_eq (hx : x = .ok a) (h : P a) : Yields x P := ⟨a, hx, h⟩

/-- The next step starts with a value of which the property of the first one is known. -/
theorem bind (hx : Yields x P) (hf : ∀ a, P a → Yields (f a) R) : Yields (x >>= f) R := by
  obtain ⟨a, rfl, ha⟩ := hx
  exact hf a ha

theorem mono (hx : Yields x P) (h : ∀ a, P a → Q a) : Yields x Q := by
  obtain ⟨a, ha, hp⟩ := hx
  exact ⟨a, ha, h a hp⟩

/-- The same for steps that may give notices. -/
theorem bindTraced {x : Traced α} {f : α → Traced β} (hx : Yields x.outcome P)
    (hf : ∀ a, P a → Yields (f a).outcome R) : Yields (x >>= f).outcome R := by
  rw [Traced.outcome_bind]
  exact hx.bind hf

theorem iff_of_ok : Yields (.ok a) P ↔ P a := by
  constructor
  · rintro ⟨b, hb, hp⟩
    cases hb
    exact hp
  · exact fun h => ⟨a, rfl, h⟩

end Yields

/-- If an outcome is a value, the value has a property. -/
def Ensures (x : Except Fault α) (P : α → Prop) : Prop := ∀ a, x = .ok a → P a

namespace Ensures

variable {x : Except Fault α} {f : α → Except Fault β} {P : α → Prop} {R : β → Prop} {a : α}

theorem pure (h : P a) : Ensures (pure a : Except Fault α) P := by
  intro b hb
  cases hb
  exact h

theorem bind (hx : Ensures x P) (hf : ∀ a, P a → Ensures (f a) R) : Ensures (x >>= f) R := by
  intro b hb
  obtain ⟨a, ha, hb⟩ := bind_eq_ok.mp hb
  exact hf a (hx a ha) b hb

/-- The same for steps that may give notices. -/
theorem bindTraced {x : Traced α} {f : α → Traced β} (hx : Ensures x.outcome P)
    (hf : ∀ a, P a → Ensures (f a).outcome R) : Ensures (x >>= f).outcome R := by
  rw [Traced.outcome_bind]
  exact hx.bind hf

/-- What comes after a computation matters only at the values it can come to. -/
theorem bind_congr {x : Traced α} {f g : α → Traced β} (hx : Ensures x.outcome P)
    (h : ∀ a, P a → f a = g a) : x >>= f = x >>= g := by
  have hnext : ExceptT.bindCont f (ExceptT.run x).value =
      ExceptT.bindCont g (ExceptT.run x).value := by
    cases hvalue : (ExceptT.run x).value with
    | error fault => rfl
    | ok a => exact h a (hx a hvalue)
  exact congrArg (fun y : Noted (Except Fault β) =>
    (⟨y.value, (ExceptT.run x).notices ++ y.notices⟩ : Noted (Except Fault β))) hnext

end Ensures

end ApiReference
