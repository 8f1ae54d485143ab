import ApiReference.Inheritance.Members
import ApiReference.Proofs.Lookup
import Mathlib.Data.List.Induction

/-!
# Tables of declarations by name

Members are kept in lists of groups, one for each name.  Such a list is the table
of a function from names to declarations when it has one entry for each name that
the function gives any declarations (`Tabulates`).  Grouping declarations by name
makes the table of those with each name, and a table stays one in any order.
-/

namespace ApiReference.Inheritance

open Declaration

/-- The groups hold, once for each name, what `f` gives for it, and leave out the names for which
that is nothing. -/
structure Tabulates (f : Text → List Address) (groups : List (Text × List Address)) : Prop where
  nodup_keys : (groups.map Prod.fst).Nodup
  mem_iff : ∀ name members, (name, members) ∈ groups ↔ members ≠ [] ∧ members = f name

namespace Tabulates

variable {f : Text → List Address} {groups groups' : List (Text × List Address)} {name : Text}

/-- A name has an entry when it has declarations. -/
theorem mem_keys (h : Tabulates f groups) : name ∈ groups.map Prod.fst ↔ f name ≠ [] := by
  rw [List.mem_map]
  constructor
  · rintro ⟨⟨name', members⟩, he, rfl⟩
    obtain ⟨hne, rfl⟩ := (h.mem_iff name' members).mp he
    exact hne
  · exact fun hne => ⟨(name, f name), (h.mem_iff _ _).mpr ⟨hne, rfl⟩, rfl⟩

/-- Looking up a name finds its declarations, if there are any. -/
theorem lookup_eq (h : Tabulates f groups) :
    groups.lookup name = if f name = [] then none else some (f name) := by
  have hfind : ∀ members, groups.lookup name = some members ↔ members ≠ [] ∧ members = f name :=
    fun members => (lookup_eq_some_iff_mem h.nodup_keys).trans (h.mem_iff name members)
  split
  · rename_i hnil
    refine Option.eq_none_iff_forall_ne_some.mpr fun members hl => ?_
    obtain ⟨hne, rfl⟩ := (hfind members).mp hl
    exact hne hnil
  · rename_i hne
    exact (hfind (f name)).mpr ⟨hne, rfl⟩

theorem getD_lookup (h : Tabulates f groups) : (groups.lookup name).getD [] = f name := by
  rw [h.lookup_eq]
  split
  · rename_i hnil
    rw [hnil]
    rfl
  · rfl

theorem isSome_lookup (h : Tabulates f groups) :
    (groups.lookup name).isSome ↔ f name ≠ [] := by
  rw [h.lookup_eq]
  split <;> simp_all

/-- A table may list its entries in any order. -/
theorem perm (h : Tabulates f groups) (hp : groups'.Perm groups) : Tabulates f groups' where
  nodup_keys := (hp.map Prod.fst).nodup_iff.mpr h.nodup_keys
  mem_iff name members := by rw [hp.mem_iff, h.mem_iff]

end Tabulates

/-! ## Grouping by name -/

/-- Only the name added can be new. -/
theorem mem_keys_addNamed {name name' : Text} {a : Address} {groups : List (Text × List Address)} :
    name' ∈ (addNamed name a groups).map Prod.fst ↔
      name' = name ∨ name' ∈ groups.map Prod.fst := by
  induction groups with
  | nil => simp [addNamed]
  | cons entry groups ih =>
    simp only [addNamed]
    split
    · rename_i he
      simp [he]
    · rw [List.map_cons, List.mem_cons, ih, List.map_cons, List.mem_cons]
      exact or_left_comm

theorem nodup_keys_addNamed (name : Text) (a : Address) {groups : List (Text × List Address)}
    (h : (groups.map Prod.fst).Nodup) : ((addNamed name a groups).map Prod.fst).Nodup := by
  induction groups with
  | nil => simp [addNamed]
  | cons entry groups ih =>
    obtain ⟨hnew, hrest⟩ := List.nodup_cons.mp h
    simp only [addNamed]
    split
    · rename_i he
      exact List.nodup_cons.mpr ⟨he ▸ hnew, hrest⟩
    · rename_i hne
      refine List.nodup_cons.mpr ⟨fun hmem => ?_, ih hrest⟩
      exact (mem_keys_addNamed.mp hmem).elim hne hnew

/-- An address is added behind those of its name, and the other groups stay. -/
theorem mem_addNamed {name name' : Text} {a : Address} {members : List Address}
    {groups : List (Text × List Address)} (h : (groups.map Prod.fst).Nodup) :
    (name', members) ∈ addNamed name a groups ↔
      if name' = name then members = (groups.lookup name).getD [] ++ [a]
      else (name', members) ∈ groups := by
  induction groups with
  | nil => by_cases hn : name' = name <;> simp [addNamed, hn]
  | cons entry groups ih =>
    obtain ⟨hnew, hrest⟩ := List.nodup_cons.mp h
    by_cases he : entry.1 = name
    · have hfree : ∀ members, (name, members) ∉ groups := fun members hm =>
        hnew (he ▸ List.mem_map_of_mem (f := Prod.fst) hm)
      subst he
      by_cases hn : name' = entry.1
      · subst hn
        have hself : (entry :: groups).lookup entry.1 = some entry.2 := List.lookup_cons_self
        simp [addNamed, hself, hfree]
      · have hentry : (name', members) ≠ entry := fun hc => hn (congrArg Prod.fst hc)
        simp [addNamed, hn, hentry]
    · have hlookup : (entry :: groups).lookup name = groups.lookup name :=
        lookup_cons_of_ne (Ne.symm he)
      simp only [addNamed, if_neg he, List.mem_cons, ih hrest, hlookup]
      by_cases hn : name' = name
      · subst hn
        have hentry : (name', members) ≠ entry := fun hc => he (congrArg Prod.fst hc).symm
        simp [hentry]
      · simp [hn]

/-- The addresses among some whose declarations have a name. -/
def named (root : Declaration) (as : List Address) (name : Text) : List Address :=
  as.filter fun a => root.nameAt a = name

theorem named_ne_nil_iff {root : Declaration} {as : List Address} {name : Text} :
    named root as name ≠ [] ↔ ∃ a ∈ as, root.nameAt a = name := by
  simp [named, List.filter_eq_nil_iff]

/-- One more address makes the table of one more address. -/
theorem Tabulates.addNamed {root : Declaration} {as : List Address} {a : Address}
    {groups : List (Text × List Address)} (h : Tabulates (named root as) groups) :
    Tabulates (named root (as ++ [a])) (addNamed (root.nameAt a) a groups) where
  nodup_keys := nodup_keys_addNamed _ _ h.nodup_keys
  mem_iff name members := by
    rw [mem_addNamed h.nodup_keys, h.getD_lookup, h.mem_iff]
    by_cases hn : name = root.nameAt a
    · subst hn
      simp only [if_true, named, List.filter_append]
      constructor
      · rintro rfl
        simp
      · rintro ⟨_, rfl⟩
        simp
    · have hne : ¬ root.nameAt a = name := fun hc => hn hc.symm
      simp [hn, hne, named, List.filter_append]

/-- Grouping makes the table of the addresses with each name, in their order. -/
theorem tabulates_groupByName (root : Declaration) (as : List Address) :
    Tabulates (named root as) (groupByName root as) := by
  induction as using List.reverseRecOn with
  | nil => exact ⟨List.nodup_nil, fun name members => by simp [groupByName, named]⟩
  | append_singleton as a ih =>
    rw [groupByName, List.foldl_append]
    exact ih.addNamed

end ApiReference.Inheritance
