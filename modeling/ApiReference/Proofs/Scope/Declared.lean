import ApiReference.Proofs.Declaration.Walk
import ApiReference.Proofs.Lookup
import ApiReference.Scope.BaseType
import ApiReference.Scope.Reference

/-!
# Names lead to declarations

Whatever a name is looked up in, what is found stands in the tree: members and exports
of a declaration, the types of the type map, and the target of a reference.
-/

namespace ApiReference.Declaration

variable {root d : Declaration} {a b : Address} {i : Info} {k : Kind}

/-- What stands behind an address is reached by its parts. -/
theorem get?_append (root : Declaration) (a b : Address) :
    root.get? (a ++ b) = (root.get? a).bind fun d => d.get? b := by
  induction a generalizing root with
  | nil => rfl
  | cons n a ih =>
    obtain ⟨i, ms⟩ := root
    rw [List.cons_append, get?_cons, get?_cons]
    cases ms[n]? with
    | none => rfl
    | some m => exact ih m

theorem mem_walk_of_kind? (h : root.kind? a = some k) : a ∈ root.walk := by
  obtain ⟨d, hd, _⟩ := Option.map_eq_some_iff.mp h
  exact mem_walk.mpr (by rw [hd]; rfl)

theorem mem_walk_of_info? (h : root.info? a = some i) : a ∈ root.walk := by
  obtain ⟨d, hd, _⟩ := Option.map_eq_some_iff.mp h
  exact mem_walk.mpr (by rw [hd]; rfl)

theorem info?_of_get? (hd : root.get? a = some d) : root.info? a = some d.toInfo := by
  rw [info?, hd]
  rfl

theorem kind?_of_get? (hd : root.get? a = some d) : root.kind? a = some d.kind := by
  rw [kind?, hd]
  rfl

theorem get?_concat (hd : root.get? a = some d) (n : Nat) :
    root.get? (a ++ [n]) = d.members[n]? := by
  obtain ⟨i, ms⟩ := d
  rw [get?_append, hd, Option.bind_some, get?_cons]
  cases ms[n]? <;> rfl

/-- The members of a declaration of the tree are those that stand behind its address. -/
theorem mem_memberAddresses_iff (hd : root.get? a = some d) :
    b ∈ memberAddresses a d ↔ ∃ n m, b = a ++ [n] ∧ d.members[n]? = some m ∧
      root.get? b = some m := by
  simp only [memberAddresses, List.mem_map, List.mem_range]
  constructor
  · rintro ⟨n, hn, rfl⟩
    exact ⟨n, d.members[n], rfl, List.getElem?_eq_getElem hn,
      by rw [get?_concat hd, List.getElem?_eq_getElem hn]⟩
  · rintro ⟨n, m, rfl, hm, _⟩
    obtain ⟨hn, _⟩ := List.getElem?_eq_some_iff.mp hm
    exact ⟨n, hn, rfl⟩

theorem mem_walk_of_mem_memberAddresses (hd : root.get? a = some d)
    (h : b ∈ memberAddresses a d) : b ∈ root.walk := by
  obtain ⟨_, m, _, _, hb⟩ := (mem_memberAddresses_iff hd).mp h
  exact mem_walk.mpr (by rw [hb]; rfl)

theorem mem_walk_of_mem_membersAt (h : b ∈ root.membersAt a) : b ∈ root.walk := by
  unfold membersAt at h
  split at h
  · rename_i d hd
    exact mem_walk_of_mem_memberAddresses hd h
  · exact absurd h List.not_mem_nil

theorem mem_walk_of_mem_exportsAt (h : b ∈ root.exportsAt a) : b ∈ root.walk := by
  unfold exportsAt at h
  split at h
  · rename_i d hd
    unfold exportsOf at h
    split at h
    · exact mem_walk_of_mem_memberAddresses hd h
    · rename_i n _
      split at h
      · rename_i m hm
        exact mem_walk_of_mem_memberAddresses ((get?_concat hd n).trans hm) h
      · exact absurd h List.not_mem_nil
  · exact absurd h List.not_mem_nil

/-- A declaration without an entry point exports its members. -/
theorem exportsAt_of_none (hd : root.get? a = some d) (h : entryPoint? d.members = none) :
    root.exportsAt a = memberAddresses a d := by
  simp only [exportsAt, hd, exportsOf, h]

/-- A declaration with an entry point exports what is in the first one. -/
theorem exportsAt_of_some (hd : root.get? a = some d) {n : Nat} {m : Declaration}
    (h : entryPoint? d.members = some n) (hm : d.members[n]? = some m) :
    root.exportsAt a = memberAddresses (a ++ [n]) m := by
  simp only [exportsAt, hd, exportsOf, h, hm]

end ApiReference.Declaration

namespace ApiReference

open Declaration

variable {root : Declaration} {types : TypeMap} {a b : Address} {name : Text}

/-- A type map that names declarations of the tree only. -/
def TypeMap.Within (types : TypeMap) (root : Declaration) : Prop := ∀ e ∈ types, e.2 ∈ root.walk

namespace TypeMap

theorem Within.insert (h : types.Within root) (name : Text) (ha : a ∈ root.walk) :
    (types.insert name a).Within root := by
  induction types with
  | nil => exact List.forall_mem_singleton.mpr ha
  | cons entry map ih =>
    obtain ⟨hentry, hmap⟩ := List.forall_mem_cons.mp h
    unfold TypeMap.insert
    split
    · exact List.forall_mem_cons.mpr ⟨ha, hmap⟩
    · exact List.forall_mem_cons.mpr ⟨hentry, ih hmap⟩

theorem Within.collect (h : types.Within root) (as : List Address) :
    (TypeMap.collect root as types).value.Within root := by
  induction as generalizing types with
  | nil => exact h
  | cons a as ih =>
    unfold TypeMap.collect
    split
    · rename_i hkind
      obtain ⟨k, hk, _⟩ := (Option.any_eq_true _ _).mp hkind
      -- the notice of a name met twice changes nothing in the map
      have hmap := ih (h.insert (root.scopedName a) (mem_walk_of_kind? hk))
      dsimp only
      split
      · exact hmap
      · exact hmap
    · exact ih h

theorem within_of (root : Declaration) : (TypeMap.of root).value.Within root :=
  Within.collect (List.forall_mem_nil _) _

theorem Within.lookup (h : types.Within root) (ha : types.lookup name = some a) :
    a ∈ root.walk := h (name, a) (mem_of_lookup ha)

end TypeMap

namespace Scope

theorem mem_walk_of_resolve (h : types.Within root) {origin : Address}
    (ha : resolve root types origin name = some a) : a ∈ root.walk := by
  unfold resolve at ha
  split at ha
  · obtain ⟨candidate, _, hc⟩ := List.exists_of_findSome?_eq_some ha
    exact h.lookup hc
  · cases ha

theorem mem_walk_of_lookupFrom (h : types.Within root) {context? : Option Address}
    (ha : lookupFrom root types context? name = some a) : a ∈ root.walk := by
  unfold lookupFrom at ha
  split at ha
  · exact mem_walk_of_resolve h ha
  · exact h.lookup ha

theorem mem_walk_of_longestType? {lookup : Text → Option Address} {names rest : List Text}
    {count : Nat} (h : ∀ name a, lookup name = some a → a ∈ root.walk)
    (ha : longestType? lookup names count = some (a, rest)) : a ∈ root.walk := by
  induction count with
  | zero => cases ha
  | succ count ih =>
    unfold longestType? at ha
    split at ha
    · rename_i b hb
      cases ha
      exact h _ _ hb
    · exact ih ha

theorem mem_walk_of_findExport? (h : findExport? root b name = some a) : a ∈ root.walk :=
  mem_walk_of_mem_exportsAt (List.mem_of_find?_eq_some h)

theorem mem_walk_of_descend {names : List Text} (ha : a ∈ root.walk)
    (h : descend root a names = .ok b) : b ∈ root.walk := by
  induction names generalizing a with
  | nil =>
    cases h
    exact ha
  | cons name names ih =>
    unfold descend at h
    split at h
    · rename_i c hc
      exact ih (mem_walk_of_findExport? hc) h
    · cases h

/-- A reference leads to a declaration of the tree. -/
theorem mem_walk_of_reference (h : types.Within root) {context? : Option Address} {ref : Text}
    (ha : reference root types context? ref = .ok a) : a ∈ root.walk := by
  unfold reference at ha
  dsimp only at ha
  split at ha
  · cases ha
  · split at ha
    · rename_i b names hb
      exact mem_walk_of_descend
        (mem_walk_of_longestType? (fun _ _ => mem_walk_of_lookupFrom h) hb) ha
    · split at ha
      · rename_i b hb
        obtain ⟨package, _, hb⟩ := Option.bind_eq_some_iff.mp hb
        exact mem_walk_of_descend (mem_walk_of_findExport? hb) ha
      · cases ha

/-- What a base type clause names is a declaration of the tree, or just a name. -/
theorem mem_walk_of_baseType (h : types.Within root) {origin : Address} {clause : Text}
    (hb : (baseType root types origin clause).value = some (.declaration a)) : a ∈ root.walk := by
  unfold baseType at hb
  dsimp only at hb
  split at hb
  · cases hb
  · split at hb
    · cases hb
    · split at hb
      · rename_i b hr
        cases hb
        exact mem_walk_of_resolve h hr
      · cases hb

end Scope

end ApiReference
