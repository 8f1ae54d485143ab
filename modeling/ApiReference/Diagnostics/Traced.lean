import ApiReference.Diagnostics.Fault
import ApiReference.Diagnostics.Notice

/-!
# Computations with notices and faults

`Noted` collects notices in order and never stops; `Traced` may stop with a fault
and keeps the notices given before.  `Noted` is a lawful monad, and its two
projections are simp lemmas, so that notices can be reasoned about like values.
-/

namespace ApiReference

/-- A value and the notices given while it was computed, in order. -/
structure Noted (α : Type) where
  value : α
  notices : List Notice
deriving Repr

namespace Noted

instance : Monad Noted where
  pure a := ⟨a, []⟩
  bind x f := ⟨(f x.value).value, x.notices ++ (f x.value).notices⟩

@[ext] theorem ext {α : Type} {x y : Noted α} (hv : x.value = y.value)
    (hn : x.notices = y.notices) : x = y := by
  cases x; cases y; simp_all

@[simp] theorem value_pure {α : Type} (a : α) : (pure a : Noted α).value = a := rfl
@[simp] theorem notices_pure {α : Type} (a : α) : (pure a : Noted α).notices = [] := rfl
@[simp] theorem value_bind {α β : Type} (x : Noted α) (f : α → Noted β) :
    (x >>= f).value = (f x.value).value := rfl
@[simp] theorem notices_bind {α β : Type} (x : Noted α) (f : α → Noted β) :
    (x >>= f).notices = x.notices ++ (f x.value).notices := rfl

instance : LawfulMonad Noted := LawfulMonad.mk' Noted
  (fun x => by
    apply ext
    · rfl
    · exact List.append_nil _)
  (fun a f => by apply ext <;> simp)
  (fun x f g => by apply ext <;> simp)

/-- Gives one notice. -/
def note (notice : Notice) : Noted Unit := ⟨(), [notice]⟩

@[simp] theorem notices_note (notice : Notice) : (note notice).notices = [notice] := rfl

end Noted

/-- A computation that gives notices and may stop with a fault; the notices before it stay. -/
abbrev Traced := ExceptT Fault Noted

namespace Traced

def fail {α : Type} (fault : Fault) : Traced α := throw fault

/-- The value or the fault a computation ends with. -/
def outcome {α : Type} (x : Traced α) : Except Fault α := (ExceptT.run x).value

def notices {α : Type} (x : Traced α) : List Notice := (ExceptT.run x).notices

end Traced

end ApiReference
