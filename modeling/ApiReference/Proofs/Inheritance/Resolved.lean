import ApiReference.Proofs.Inheritance.Inherited
import Mathlib.Data.Char
import Mathlib.Data.List.Lex

/-!
# Own and inherited members joined

Both sides of the join are tables, and both are sorted by name before.  One step of
the join takes the smaller name from its side, or a name from both sides at once.
So the names of the result are those of either side, in strict order, and each
entry has from either side what that side has for its name.
-/

namespace ApiReference.Inheritance

open Declaration

variable {entry : Text × List Address} {groups own inherited : List (Text × List Address)}
variable {name : Text}

/-! ## Sorting by name -/

/-- Each name is greater than those before it. -/
def SortedByName (groups : List (Text × List Address)) : Prop :=
  groups.Pairwise fun e e' => e.1 < e'.1

theorem perm_insertByName (entry : Text × List Address) (groups : List (Text × List Address)) :
    (insertByName entry groups).Perm (entry :: groups) := by
  induction groups with
  | nil => exact .refl _
  | cons other groups ih =>
    simp only [insertByName]
    split
    · exact (ih.cons other).trans (.swap entry other groups)
    · exact .refl _

/-- A group with a new name is put in its place. -/
theorem SortedByName.insertByName (h : SortedByName groups) (hnew : entry.1 ∉ groups.map Prod.fst) :
    SortedByName (insertByName entry groups) := by
  induction groups with
  | nil => exact List.pairwise_singleton _ _
  | cons other groups ih =>
    obtain ⟨hother, hsorted⟩ := List.pairwise_cons.mp h
    rw [List.map_cons, List.mem_cons, not_or] at hnew
    simp only [Inheritance.insertByName, Text.lt_iff]
    split
    · rename_i hlt
      refine List.pairwise_cons.mpr ⟨fun e he => ?_, ih hsorted hnew.2⟩
      rcases List.mem_cons.mp ((perm_insertByName entry groups).mem_iff.mp he) with rfl | he
      · exact hlt
      · exact hother e he
    · rename_i hge
      have hlt : entry.1 < other.1 := lt_of_le_of_ne (not_lt.mp hge) hnew.1
      refine List.pairwise_cons.mpr ⟨fun e he => ?_, h⟩
      rcases List.mem_cons.mp he with rfl | he
      · exact hlt
      · exact hlt.trans (hother e he)

theorem perm_sortByName (groups : List (Text × List Address)) :
    (sortByName groups).Perm groups := by
  induction groups with
  | nil => exact .refl _
  | cons entry groups ih => exact (perm_insertByName _ _).trans (ih.cons entry)

theorem sortedByName_sortByName (h : (groups.map Prod.fst).Nodup) :
    SortedByName (sortByName groups) := by
  induction groups with
  | nil => exact List.Pairwise.nil
  | cons entry groups ih =>
    obtain ⟨hnew, hrest⟩ := List.nodup_cons.mp h
    exact (ih hrest).insertByName fun hmem =>
      hnew (((perm_sortByName groups).map Prod.fst).mem_iff.mp hmem)

/-- What comes before all names is not among them. -/
theorem lookup_eq_none_of_lt (h : ∀ e ∈ groups, name < e.1) : groups.lookup name = none :=
  List.lookup_eq_none_iff.mpr fun e he => by simpa using (h e he).ne

theorem SortedByName.nodup_keys (h : SortedByName groups) : (groups.map Prod.fst).Nodup :=
  List.pairwise_map.mpr (h.imp fun hlt => hlt.ne)

/-! ## The join -/

theorem eq_of_not_lt {s t : Text} (hts : ¬ Text.lt t s = true) (hst : ¬ Text.lt s t = true) :
    s = t := by
  rw [Text.lt_iff, not_lt] at hts hst
  exact le_antisymm hts hst

/-- A name is in the join when it is on either side. -/
theorem mem_names_joinByName (own inherited : List (Text × List Address)) :
    name ∈ (joinByName own inherited).map Resolved.name ↔
      name ∈ own.map Prod.fst ∨ name ∈ inherited.map Prod.fst := by
  fun_induction joinByName own inherited with
  | case1 inherited => simp
  | case2 own => simp
  | case3 o own i inherited _ ih =>
    rw [List.map_cons, List.mem_cons, ih, List.map_cons (l := inherited), List.mem_cons]
    exact or_left_comm
  | case4 o own i inherited _ _ ih =>
    rw [List.map_cons, List.mem_cons, ih, List.map_cons (l := own), List.mem_cons]
    exact or_assoc.symm
  | case5 o own i inherited hio hoi ih =>
    have heq := eq_of_not_lt hio hoi
    rw [List.map_cons, List.mem_cons, ih, List.map_cons, List.map_cons, List.mem_cons,
      List.mem_cons, heq, or_or_distrib_left]

/-- One step of the join comes before all that follow it. -/
theorem lt_of_mem_joinByName {r : Resolved} (ho : ∀ e ∈ own, name < e.1)
    (hi : ∀ e ∈ inherited, name < e.1) (hr : r ∈ joinByName own inherited) : name < r.name := by
  have hname := (mem_names_joinByName own inherited).mp (List.mem_map_of_mem hr)
  rcases hname with h | h
  · obtain ⟨e, he, heq⟩ := List.mem_map.mp h
    exact heq ▸ ho e he
  · obtain ⟨e, he, heq⟩ := List.mem_map.mp h
    exact heq ▸ hi e he

/-- A name before the first of a sorted side comes before all of it. -/
theorem SortedByName.forall_lt (h : SortedByName (entry :: groups)) (hlt : name < entry.1) :
    ∀ e ∈ entry :: groups, name < e.1 := by
  intro e he
  rcases List.mem_cons.mp he with rfl | he
  · exact hlt
  · exact hlt.trans ((List.pairwise_cons.mp h).1 e he)

/-- The names of the join are in strict order. -/
theorem pairwise_joinByName (ho : SortedByName own) (hi : SortedByName inherited) :
    (joinByName own inherited).Pairwise fun r r' => r.name < r'.name := by
  fun_induction joinByName own inherited with
  | case1 inherited => exact List.pairwise_map.mpr hi
  | case2 own => exact List.pairwise_map.mpr ho
  | case3 o own i inherited hio ih =>
    obtain ⟨hi', his⟩ := List.pairwise_cons.mp hi
    refine List.pairwise_cons.mpr ⟨fun r hr => ?_, ih ho his⟩
    exact lt_of_mem_joinByName (ho.forall_lt (Text.lt_iff.mp hio)) hi' hr
  | case4 o own i inherited _ hoi ih =>
    obtain ⟨ho', hos⟩ := List.pairwise_cons.mp ho
    refine List.pairwise_cons.mpr ⟨fun r hr => ?_, ih hos hi⟩
    exact lt_of_mem_joinByName ho' (hi.forall_lt (Text.lt_iff.mp hoi)) hr
  | case5 o own i inherited hio hoi ih =>
    obtain ⟨ho', hos⟩ := List.pairwise_cons.mp ho
    obtain ⟨hi', his⟩ := List.pairwise_cons.mp hi
    refine List.pairwise_cons.mpr ⟨fun r hr => ?_, ih hos his⟩
    exact lt_of_mem_joinByName ho' (eq_of_not_lt hio hoi ▸ hi') hr

/-- An entry holds what either side has for its name. -/
structure Joins (own inherited : List (Text × List Address)) (r : Resolved) : Prop where
  own : r.own = (own.lookup r.name).getD []
  parents : r.parents = (inherited.lookup r.name).getD []

namespace Joins

variable {r : Resolved} {o i : Text × List Address}

/-- A name passed on the own side is not needed by a later entry. -/
theorem cons_own (h : Joins own inherited r) (hlt : o.1 < r.name) :
    Joins (o :: own) inherited r :=
  ⟨by rw [lookup_cons_of_ne hlt.ne', h.own], h.parents⟩

/-- A name passed on the inherited side is not needed by a later entry. -/
theorem cons_inherited (h : Joins own inherited r) (hlt : i.1 < r.name) :
    Joins own (i :: inherited) r :=
  ⟨h.own, by rw [lookup_cons_of_ne hlt.ne', h.parents]⟩

end Joins

/-- No entry loses or gains a declaration on either side. -/
theorem joins_of_mem_joinByName (ho : SortedByName own) (hi : SortedByName inherited)
    {r : Resolved} (hr : r ∈ joinByName own inherited) : Joins own inherited r := by
  fun_induction joinByName own inherited with
  | case1 inherited =>
    obtain ⟨e, he, rfl⟩ := List.mem_map.mp hr
    exact ⟨rfl, by rw [(lookup_eq_some_iff_mem hi.nodup_keys).mpr he]; rfl⟩
  | case2 own =>
    obtain ⟨e, he, rfl⟩ := List.mem_map.mp hr
    exact ⟨by rw [(lookup_eq_some_iff_mem ho.nodup_keys).mpr he]; rfl, rfl⟩
  | case3 o own i inherited hio ih =>
    obtain ⟨hi', his⟩ := List.pairwise_cons.mp hi
    have hlt := ho.forall_lt (Text.lt_iff.mp hio)
    rcases List.mem_cons.mp hr with rfl | hr
    · exact ⟨by rw [lookup_eq_none_of_lt hlt]; rfl, by rw [List.lookup_cons_self]; rfl⟩
    · exact (ih ho his hr).cons_inherited (lt_of_mem_joinByName hlt hi' hr)
  | case4 o own i inherited _ hoi ih =>
    obtain ⟨ho', hos⟩ := List.pairwise_cons.mp ho
    have hlt := hi.forall_lt (Text.lt_iff.mp hoi)
    rcases List.mem_cons.mp hr with rfl | hr
    · exact ⟨by rw [List.lookup_cons_self]; rfl, by rw [lookup_eq_none_of_lt hlt]; rfl⟩
    · exact (ih hos hi hr).cons_own (lt_of_mem_joinByName ho' hlt hr)
  | case5 o own i inherited hio hoi ih =>
    obtain ⟨ho', hos⟩ := List.pairwise_cons.mp ho
    obtain ⟨hi', his⟩ := List.pairwise_cons.mp hi
    have heq := eq_of_not_lt hio hoi
    rcases List.mem_cons.mp hr with rfl | hr
    · refine ⟨by rw [List.lookup_cons_self]; rfl, ?_⟩
      change i.2 = (List.lookup o.1 (i :: inherited)).getD []
      rw [heq, List.lookup_cons_self]
      rfl
    · have hlt := lt_of_mem_joinByName ho' (heq ▸ hi') hr
      exact ((ih hos his hr).cons_own hlt).cons_inherited (heq ▸ hlt)

/-! ## Resolved members -/

/-- The members of a type come in strict code point order of their names, which are the names of its
own and its inherited members.  Each entry has all own declarations of its name in order and the
whole inherited chain, and one of the two has a declaration to show. -/
theorem resolvedMembers_joined (root : Declaration) (g : Graph) (a : Address) :
    ((resolvedMembers root g a).map Resolved.name).Pairwise (· < ·) ∧
    (∀ name, name ∈ (resolvedMembers root g a).map Resolved.name ↔
      (∃ m ∈ root.membersAt a, root.nameAt m = name) ∨
        name ∈ (Inheritance.inherited root g a).map Prod.fst) ∧
    ∀ r ∈ resolvedMembers root g a,
      r.own = (root.membersAt a).filter (fun m => root.nameAt m = r.name) ∧
      r.parents = ((Inheritance.inherited root g a).lookup r.name).getD [] ∧
      (r.own ≠ [] ∨ r.parents ≠ []) ∧ ∃ m, r.shown? = some m := by
  have hown := tabulates_groupByName root (root.membersAt a)
  have hinh := tabulates_inherited root g a
  have hown' := hown.perm (perm_sortByName _)
  have hinh' := hinh.perm (perm_sortByName _)
  have ho := sortedByName_sortByName hown.nodup_keys
  have hi := sortedByName_sortByName hinh.nodup_keys
  refine ⟨List.pairwise_map.mpr (pairwise_joinByName ho hi), fun name => ?_, fun r hr => ?_⟩
  · rw [resolvedMembers, mem_names_joinByName, hown'.mem_keys, hinh'.mem_keys, hinh.mem_keys,
      named_ne_nil_iff]
  · have hjoin := joins_of_mem_joinByName ho hi hr
    have hside : r.own ≠ [] ∨ r.parents ≠ [] := by
      rw [hjoin.own, hjoin.parents, hown'.getD_lookup, hinh'.getD_lookup, ← hown'.mem_keys,
        ← hinh'.mem_keys]
      exact (mem_names_joinByName _ _).mp (List.mem_map_of_mem hr)
    refine ⟨?_, ?_, hside, ?_⟩
    · rw [hjoin.own, hown'.getD_lookup]
      rfl
    · rw [hjoin.parents, hinh'.getD_lookup, hinh.getD_lookup]
    · have hne : r.own ++ r.parents ≠ [] := by
        rw [Ne, List.append_eq_nil_iff, not_and_or]
        exact hside
      exact ⟨_, List.head?_eq_some_head hne⟩

end ApiReference.Inheritance
