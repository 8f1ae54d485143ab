import ApiReference.Proofs.Declaration.BreadthFirst
import ApiReference.Proofs.Scope.TypeMap
import Mathlib.Data.List.Induction

/-!
# Types with one full name

The type map goes through the declarations of a tree in the order of a queue and keeps
account of the types by their full names.  Of several types with one name the first one
gives the name its place, each of the others gives a notice, and the last one is what the
name stands for (`TypeMap.of_account`).  What one more declaration changes is told by
`collect_concat`; that nothing is met twice makes the first of several a matter of the
list alone.
-/

namespace ApiReference

open Declaration

variable {root : Declaration} {types : TypeMap} {a : Address} {as : List Address} {name : Text}

/-- The first type among some declarations that has its full name. -/
def isFirstNamed (root : Declaration) (as : List Address) (a : Address) : Bool :=
  as.find? (isTypeNamed root (root.scopedName a)) == some a

/-- The types among some declarations whose full name no type before them has. -/
def firstNamed (root : Declaration) (as : List Address) : List Address :=
  as.filter (isFirstNamed root as)

/-- The types among some declarations whose full name a type before them has. -/
def namedAgain (root : Declaration) (as : List Address) : List Address :=
  as.filter fun a => (root.kind? a).any Kind.isType && !isFirstNamed root as a

/-! ## One more declaration -/

theorem isTypeNamed_self (h : (root.kind? a).any Kind.isType = true) :
    isTypeNamed root (root.scopedName a) a = true := isTypeNamed_iff.mpr ⟨h, rfl⟩

/-- What comes later does not change which types are the first of their names. -/
theorem isFirstNamed_concat_of_mem (h : a ∈ as) (b : Address) :
    isFirstNamed root (as ++ [b]) a = isFirstNamed root as a := by
  unfold isFirstNamed
  rw [List.find?_append]
  cases hfind : as.find? (isTypeNamed root (root.scopedName a)) with
  | some c => rw [Option.some_or]
  | none =>
    -- then no type at all, so it is not found at the end either
    have hkind : ¬(root.kind? a).any Kind.isType = true := by
      intro hkind
      exact List.find?_eq_none.mp hfind a h (isTypeNamed_self hkind)
    have hlast : ([b].find? (isTypeNamed root (root.scopedName a)) == some a) = false := by
      rw [beq_eq_false_iff_ne]
      intro hlast
      exact hkind (isTypeNamed_iff.mp (List.find?_some hlast)).1
    rw [Option.none_or, hlast]
    rfl

/-- A declaration that was not met before is the first of its name if no type before it has that. -/
theorem isFirstNamed_concat (root : Declaration) (h : a ∉ as) : isFirstNamed root (as ++ [a]) a =
    ((root.kind? a).any Kind.isType && !as.any (isTypeNamed root (root.scopedName a))) := by
  unfold isFirstNamed
  rw [List.find?_append]
  cases hfind : as.find? (isTypeNamed root (root.scopedName a)) with
  | some c =>
    have hne : c ≠ a := by
      rintro rfl
      exact h (List.mem_of_find?_eq_some hfind)
    have hany : as.any (isTypeNamed root (root.scopedName a)) = true :=
      List.any_eq_true.mpr ⟨c, List.mem_of_find?_eq_some hfind, List.find?_some hfind⟩
    rw [Option.some_or, hany, Bool.not_true, Bool.and_false, beq_eq_false_iff_ne]
    exact fun heq => hne (Option.some.inj heq)
  | none =>
    have hany : as.any (isTypeNamed root (root.scopedName a)) = false := by
      rw [List.any_eq_false]
      exact List.find?_eq_none.mp hfind
    rw [Option.none_or, hany, Bool.not_false, Bool.and_true, List.find?_singleton]
    by_cases hkind : (root.kind? a).any Kind.isType = true
    · rw [if_pos (isTypeNamed_self hkind), hkind, beq_self_eq_true]
    · rw [if_neg fun hnamed => hkind (isTypeNamed_iff.mp hnamed).1,
        Bool.eq_false_iff.mpr hkind]
      rfl

theorem firstNamed_concat (as : List Address) (a : Address) : firstNamed root (as ++ [a]) =
    firstNamed root as ++ if isFirstNamed root (as ++ [a]) a then [a] else [] := by
  rw [firstNamed, firstNamed, List.filter_append, List.filter_singleton, Bool.cond_eq_ite]
  congr 1
  apply List.filter_congr
  intro b hb
  exact isFirstNamed_concat_of_mem hb a

theorem namedAgain_concat (as : List Address) (a : Address) : namedAgain root (as ++ [a]) =
    namedAgain root as ++
      if (root.kind? a).any Kind.isType && !isFirstNamed root (as ++ [a]) a then [a] else [] := by
  rw [namedAgain, namedAgain, List.filter_append, List.filter_singleton, Bool.cond_eq_ite]
  congr 1
  apply List.filter_congr
  intro b hb
  rw [isFirstNamed_concat_of_mem hb a]

namespace TypeMap

/-! ## Names in the map -/

/-- A new name goes to the end, and a known one keeps its place. -/
theorem keys_insert (name : Text) (a : Address) (types : TypeMap) :
    (types.insert name a).map Prod.fst = types.map Prod.fst ++
      if (types.lookup name).isSome then [] else [name] := by
  induction types with
  | nil => rfl
  | cons entry types ih =>
    rw [TypeMap.insert]
    by_cases hentry : entry.1 = name
    · subst hentry
      rw [if_pos rfl, List.lookup_cons_self, Option.isSome_some, if_pos rfl, List.append_nil]
      rfl
    · rw [if_neg hentry, lookup_cons_of_ne (Ne.symm hentry), List.map_cons, List.map_cons, ih,
        List.cons_append]

/-! ## Going through declarations -/

/-- One more declaration at the end is added to what the others make. -/
theorem collect_concat (root : Declaration) (as : List Address) (a : Address) (types : TypeMap) :
    collect root (as ++ [a]) types = collect root as types >>= collect root [a] := by
  induction as generalizing types with
  | nil => rfl
  | cons b as ih =>
    rw [List.cons_append, collect, collect]
    split
    · dsimp only
      split
      · rw [bind_assoc]
        exact bind_congr fun _ => ih _
      · exact ih _
    · exact ih types

theorem collect_singleton (root : Declaration) (a : Address) (types : TypeMap) :
    collect root [a] types = if (root.kind? a).any Kind.isType then
      ⟨types.insert (root.scopedName a) a,
        if (types.lookup (root.scopedName a)).isSome then [.duplicateType (root.scopedName a)]
        else []⟩
    else ⟨types, []⟩ := by
  rw [collect]
  split
  · dsimp only
    split <;> rfl
  · rfl

theorem isSome_lookup_collect (root : Declaration) (as : List Address) (name : Text) :
    ((collect root as []).value.lookup name).isSome = as.any (isTypeNamed root name) := by
  rw [lookup_collect, List.lookup_nil, Option.or_none, Bool.eq_iff_iff, List.getLast?_isSome,
    List.any_eq_true, ne_eq, List.filter_eq_nil_iff]
  push Not
  rfl

/-- The names are there in the order in which they are first met, and every type whose name was met
before gives a notice. -/
theorem collect_account (h : as.Nodup) :
    (collect root as []).value.map Prod.fst = (firstNamed root as).map root.scopedName ∧
    (collect root as []).notices =
      (namedAgain root as).map fun a => .duplicateType (root.scopedName a) := by
  induction as using List.reverseRecOn with
  | nil => exact ⟨rfl, rfl⟩
  | append_singleton as a ih =>
    have hfresh : a ∉ as := by
      intro ha
      exact List.disjoint_of_nodup_append h ha (List.mem_singleton_self a)
    obtain ⟨hkeys, hnotices⟩ := ih (List.Nodup.of_append_left h)
    have hknown := isSome_lookup_collect root as (root.scopedName a)
    have hfirst := isFirstNamed_concat root hfresh
    rw [collect_concat, Noted.value_bind, Noted.notices_bind, collect_singleton,
      firstNamed_concat, namedAgain_concat, List.map_append, List.map_append,
      ← hkeys, ← hnotices, hknown, hfirst]
    by_cases hkind : (root.kind? a).any Kind.isType = true
    · rw [if_pos hkind, hkind, Bool.true_and, Bool.true_and, Bool.not_not]
      dsimp only
      rw [keys_insert, hknown]
      cases as.any (isTypeNamed root (root.scopedName a)) with
      | true => exact ⟨rfl, rfl⟩
      | false => exact ⟨rfl, rfl⟩
    · rw [if_neg hkind, Bool.eq_false_iff.mpr hkind]
      exact ⟨(List.append_nil _).symm, rfl⟩

/-- No two types are both the first of one name. -/
theorem nodup_names_firstNamed (root : Declaration) (h : as.Nodup) :
    ((firstNamed root as).map root.scopedName).Nodup := by
  refine List.Nodup.map_on ?_ (h.filter _)
  intro a ha b hb hname
  have hfirst := eq_of_beq (List.mem_filter.mp ha).2
  rw [hname] at hfirst
  exact Option.some.inj (hfirst.symm.trans (eq_of_beq (List.mem_filter.mp hb).2))

/-- The type map of a tree, and the notices on the way to it: the declarations are met in the order
of a queue, each once; the keys are the full names of the types in the order in which they are first
met; each stands for the last type that has it; and every type whose name was met before gives one
notice. -/
theorem of_account (root : Declaration) :
    IsBreadthFirst root root.breadthFirst ∧
    (∀ name, name ∈ (TypeMap.of root).value.map Prod.fst ↔
      ∃ a, (root.kind? a).any Kind.isType = true ∧ root.scopedName a = name) ∧
    ((TypeMap.of root).value.map Prod.fst).Nodup ∧
    (TypeMap.of root).value.map Prod.fst =
      (firstNamed root root.breadthFirst).map root.scopedName ∧
    (∀ name, (TypeMap.of root).value.lookup name =
      (root.breadthFirst.filter (isTypeNamed root name)).getLast?) ∧
    (TypeMap.of root).notices =
      (namedAgain root root.breadthFirst).map fun a => .duplicateType (root.scopedName a) := by
  have horder := isBreadthFirst_breadthFirst root
  obtain ⟨hkeys, hnotices⟩ := collect_account horder.nodup
  refine ⟨horder, ?_, ?_, hkeys, lookup_of root, hnotices⟩
  · intro name
    rw [← isSome_lookup_iff, TypeMap.of, isSome_lookup_collect, List.any_eq_true]
    constructor
    · rintro ⟨a, -, ha⟩
      exact ⟨a, isTypeNamed_iff.mp ha⟩
    · rintro ⟨a, hkind, hname⟩
      obtain ⟨k, hk, -⟩ := (Option.any_eq_true _ _).mp hkind
      have hmet := (horder.mem_iff a).mpr (mem_walk.mp (mem_walk_of_kind? hk))
      exact ⟨a, hmet, isTypeNamed_iff.mpr ⟨hkind, hname⟩⟩
  · have hnodup := nodup_names_firstNamed root horder.nodup
    rw [← hkeys] at hnodup
    exact hnodup

end TypeMap

end ApiReference
