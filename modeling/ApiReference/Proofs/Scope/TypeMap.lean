import ApiReference.Proofs.Lookup
import ApiReference.Scope.TypeMap

/-!
# What a type map holds

Adding a type to the map changes what its name stands for and nothing else
(`lookup_insert`).  So every name stands for the last type that has it, level by level
(`lookup_of`), and for nothing if there is no such type.
-/

namespace ApiReference

open Declaration

variable {root : Declaration} {types : TypeMap} {a b : Address} {name : Text}

/-- A type whose full name is the given one. -/
def isTypeNamed (root : Declaration) (name : Text) (a : Address) : Bool :=
  (root.kind? a).any Kind.isType && decide (root.scopedName a = name)

/-- The types with a full name, those nearer to the root first. -/
def typesNamed (root : Declaration) (name : Text) : List Address :=
  root.breadthFirst.filter (isTypeNamed root name)

theorem isTypeNamed_iff : isTypeNamed root name a = true ↔
    (root.kind? a).any Kind.isType = true ∧ root.scopedName a = name := by
  rw [isTypeNamed, Bool.and_eq_true, decide_eq_true_eq]

namespace TypeMap

theorem lookup_insert (name' name : Text) (a : Address) (types : TypeMap) :
    (types.insert name a).lookup name' = if name' = name then some a else types.lookup name' := by
  induction types with
  | nil =>
    rw [TypeMap.insert]
    split
    · rename_i h
      rw [h, List.lookup_cons_self]
    · rename_i h
      rw [lookup_cons_of_ne h]
  | cons entry map ih =>
    rw [TypeMap.insert]
    by_cases hentry : entry.1 = name
    · rw [if_pos hentry]
      split
      · rename_i h
        rw [h, List.lookup_cons_self]
      · rename_i h
        rw [lookup_cons_of_ne h, lookup_cons_of_ne (hentry ▸ h)]
    · rw [if_neg hentry]
      by_cases h : name' = entry.1
      · subst h
        rw [List.lookup_cons_self, List.lookup_cons_self, if_neg hentry]
      · rw [lookup_cons_of_ne h, lookup_cons_of_ne h, ih]

/-- One more address counts if it is that of a type. -/
theorem value_collect_cons (root : Declaration) (a : Address) (as : List Address)
    (types : TypeMap) : (collect root (a :: as) types).value =
      if (root.kind? a).any Kind.isType then
        (collect root as (types.insert (root.scopedName a) a)).value
      else (collect root as types).value := by
  rw [collect]
  split
  · dsimp only
    split <;> rfl
  · rfl

/-- Of the types among some addresses the last one with a name counts, or else what the name stood
for before. -/
theorem lookup_collect (as : List Address) (types : TypeMap) :
    (collect root as types).value.lookup name =
      (as.filter (isTypeNamed root name)).getLast?.or (types.lookup name) := by
  induction as generalizing types with
  | nil => rfl
  | cons a as ih =>
    rw [value_collect_cons]
    split
    · rename_i hkind
      rw [ih, lookup_insert]
      by_cases hname : root.scopedName a = name
      · rw [List.filter_cons_of_pos (isTypeNamed_iff.mpr ⟨hkind, hname⟩), if_pos hname.symm,
          List.getLast?_cons, Option.or_some]
        rfl
      · rw [List.filter_cons_of_neg fun h => hname (isTypeNamed_iff.mp h).2,
          if_neg (Ne.symm hname)]
    · rename_i hkind
      rw [ih, List.filter_cons_of_neg fun h => hkind (isTypeNamed_iff.mp h).1]

/-- A name stands for the last type that has it. -/
theorem lookup_of (root : Declaration) (name : Text) :
    (TypeMap.of root).value.lookup name = (typesNamed root name).getLast? := by
  rw [TypeMap.of, lookup_collect, List.lookup_nil, Option.or_none]
  rfl

/-- A name in the map is the full name of what it stands for. -/
theorem scopedName_of_lookup (h : (TypeMap.of root).value.lookup name = some a) :
    (root.kind? a).any Kind.isType = true ∧ root.scopedName a = name := by
  rw [lookup_of] at h
  exact isTypeNamed_iff.mp (List.mem_filter.mp (List.mem_of_getLast? h)).2

end TypeMap

end ApiReference
