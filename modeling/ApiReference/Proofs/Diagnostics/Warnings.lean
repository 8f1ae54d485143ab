import ApiReference.Proofs.Diagnostics.Outcome

/-!
# Warnings

What a computation with notices warns of is put together from the warnings of its steps,
up to the first that stops it (`warnings_bind_of_ok`, `warnings_bind_of_error`).
`Account` says all that is known of how a computation ends: for which faults it may stop,
what it comes to otherwise, and the warnings that it gives then.
-/

namespace ApiReference

variable {α β : Type}

namespace Traced

/-- The warnings among the notices of a computation. -/
def warnings (x : Traced α) : List Notice := x.notices.filter fun n => n.level = .warning

variable {x : Traced α} {f : α → Traced β} {a : α} {fault : Fault}

@[simp] theorem warnings_pure (a : α) : warnings (pure a : Traced α) = [] := rfl

@[simp] theorem warnings_liftExcept (x : Except Fault α) :
    warnings (liftM x : Traced α) = [] := rfl

theorem warnings_liftNoted (x : Noted α) :
    warnings (liftM x : Traced α) = x.notices.filter fun n => n.level = .warning := by
  rw [warnings, notices]
  exact congrArg _ (List.append_nil x.notices)

/-- A step that comes to a value is followed by the next one. -/
theorem warnings_bind_of_ok (h : x.outcome = .ok a) :
    (x >>= f).warnings = x.warnings ++ (f a).warnings := by
  rw [warnings, notices, ExceptT.run_bind, Noted.notices_bind, List.filter_append]
  rw [outcome] at h
  rw [h]
  rfl

theorem warnings_bind_of_error (h : x.outcome = .error fault) :
    (x >>= f).warnings = x.warnings := by
  rw [warnings, notices, ExceptT.run_bind, Noted.notices_bind, List.filter_append]
  rw [outcome] at h
  rw [h]
  exact List.append_nil _

/-- Steps that give no warnings make a computation that gives none. -/
theorem warnings_bind_eq_nil (hx : x.warnings = []) (hf : ∀ a, (f a).warnings = []) :
    (x >>= f).warnings = [] := by
  cases h : x.outcome with
  | error fault => rw [warnings_bind_of_error h, hx]
  | ok a => rw [warnings_bind_of_ok h, hx, hf, List.nil_append]

end Traced

/-- A computation that stops only with some faults, and else comes to a value with a property and
gives just some warnings. -/
inductive Account (faults : Fault → Prop) (good : α → Prop) (warnings : List Notice)
    (x : Traced α) : Prop
  | stopped {fault : Fault} : x.outcome = .error fault → faults fault →
      Account faults good warnings x
  | finished {a : α} : x.outcome = .ok a → good a → x.warnings = warnings →
      Account faults good warnings x

namespace Account

variable {faults : Fault → Prop} {good : α → Prop} {first second : List Notice} {x : Traced α}
variable {goodNext : β → Prop} {f : α → Traced β}

/-- The warnings of the next step stand behind those of the first one. -/
theorem bind (hx : Account faults good first x)
    (hf : ∀ a, good a → Account faults goodNext second (f a)) :
    Account faults goodNext (first ++ second) (x >>= f) := by
  cases hx with
  | stopped hstop hfault =>
    refine .stopped ?_ hfault
    rw [Traced.outcome_bind, hstop]
    rfl
  | @finished a ha hgood hwarnings =>
    have hbind : (x >>= f).outcome = (f a).outcome := by
      rw [Traced.outcome_bind, ha]
      rfl
    cases hf a hgood with
    | stopped hstop hfault => exact .stopped (hbind.trans hstop) hfault
    | finished hb hgoodNext hnext =>
      refine .finished (hbind.trans hb) hgoodNext ?_
      rw [Traced.warnings_bind_of_ok ha, hwarnings, hnext]

theorem pure {a : α} (h : good a) : Account faults good [] (pure a : Traced α) :=
  .finished rfl h rfl

/-- A value is put to use without a further step. -/
theorem map {goodNext : β → Prop} {g : α → β} (hx : Account faults good first x)
    (hg : ∀ a, good a → goodNext (g a)) :
    Account faults goodNext first (x >>= fun a => Pure.pure (g a)) := by
  have hbind : Account faults goodNext (first ++ []) (x >>= fun a => Pure.pure (g a)) :=
    hx.bind fun a ha => .pure (hg a ha)
  rwa [List.append_nil] at hbind

theorem mono {faults' : Fault → Prop} {good' : α → Prop} (hx : Account faults good first x)
    (hfaults : ∀ fault, faults fault → faults' fault) (hgood : ∀ a, good a → good' a) :
    Account faults' good' first x := by
  cases hx with
  | stopped hstop hfault => exact .stopped hstop (hfaults _ hfault)
  | finished ha h hwarnings => exact .finished ha (hgood _ h) hwarnings

/-- A step that comes to a value without a warning leaves everything to the next one. -/
theorem bind_of_ok {a : α} (ha : x.outcome = .ok a) (hwarnings : x.warnings = [])
    (hf : Account faults goodNext second (f a)) : Account faults goodNext second (x >>= f) := by
  have hx : Account faults (· = a) [] x := .finished ha rfl hwarnings
  refine hx.bind fun b hb => ?_
  rw [hb]
  exact hf

end Account

end ApiReference
