import ApiReference.Proofs.Declaration.Reordered
import ApiReference.Proofs.Inheritance.Edges

/-!
# The inheritance graph does not depend on the order of members

A name is looked up in scopes that are read off the containers of a declaration, and so
a clause means the same for a declaration and its counterpart in a tree with members in
another order (`meaning_baseType`).  Where no two types have one name, a class or interface
has just one counterpart, and the two graphs tell the same of both
(`graphOf_of_reordered`).
-/

namespace ApiReference.Inheritance

open Declaration Scope

variable {root root' : Declaration} {a b c : Address} {name clause : Text} {ref : Ref} {i : Info}
variable {clauses : List Text} {l l' : Links}

/-- What a reference says: the full name of a declaration, or just a label. -/
inductive Meaning where
  | declared (name : Text)
  | label (name : Text)
deriving DecidableEq, Repr

def meaning (root : Declaration) : Ref → Meaning
  | .declaration a => .declared (root.scopedName a)
  | .label name => .label name

/-! ## Names are looked up alike -/

/-- A name is in the type map if some type has it. -/
theorem isSome_lookup_of : ((TypeMap.of root).value.lookup name).isSome = true ↔
    ∃ a, (root.kind? a).any Kind.isType = true ∧ root.scopedName a = name := by
  constructor
  · intro h
    obtain ⟨a, ha⟩ := Option.isSome_iff_exists.mp h
    exact ⟨a, TypeMap.scopedName_of_lookup ha⟩
  · rintro ⟨a, ha⟩
    obtain ⟨k, hk, _⟩ := (Option.any_eq_true _ _).mp ha.1
    have hmem : a ∈ typesNamed root name := List.mem_filter.mpr
      ⟨(perm_breadthFirst root).mem_iff.mpr (mem_walk_of_kind? hk), isTypeNamed_iff.mpr ha⟩
    rw [TypeMap.lookup_of, List.getLast?_eq_some_getLast (List.ne_nil_of_mem hmem)]
    rfl

theorem isSome_lookup_imp (h : (lineages root).Perm (lineages root'))
    (hname : ((TypeMap.of root).value.lookup name).isSome = true) :
    ((TypeMap.of root').value.lookup name).isSome = true := by
  rw [isSome_lookup_of] at hname ⊢
  obtain ⟨a, hkind, rfl⟩ := hname
  obtain ⟨k, hk, _⟩ := (Option.any_eq_true _ _).mp hkind
  obtain ⟨b, hb⟩ := exists_counterpart h (mem_walk_of_kind? hk)
  exact ⟨b, hb.kind?_eq ▸ hkind, hb.scopedName_eq⟩

/-- A name leads to a type that has it in both trees, or in none. -/
theorem map_scopedName_lookup (h : (lineages root).Perm (lineages root')) (name : Text) :
    ((TypeMap.of root').value.lookup name).map root'.scopedName =
      ((TypeMap.of root).value.lookup name).map root.scopedName := by
  cases hleft : (TypeMap.of root).value.lookup name with
  | none =>
    cases hright : (TypeMap.of root').value.lookup name with
    | none => rfl
    | some b =>
      have hsome := isSome_lookup_imp h.symm (by rw [hright]; rfl)
      rw [hleft] at hsome
      cases hsome
  | some a =>
    have hsome := isSome_lookup_imp h (by rw [hleft]; rfl)
    obtain ⟨b, hright⟩ := Option.isSome_iff_exists.mp hsome
    rw [hright, Option.map_some, Option.map_some, (TypeMap.scopedName_of_lookup hleft).2,
      (TypeMap.scopedName_of_lookup hright).2]

theorem candidates_eq_foldl (root : Declaration) (a : Address) (name : Text) :
    candidates root a name = ((hierarchy a).map root.lineage).reverse.foldl
      (fun names l => addNew names (qualify (scopedNameOf l) name)) [] := by
  rw [candidates, ← List.map_reverse, List.foldl_map]
  rfl

/-- A declaration and its counterpart try the same full names for a name. -/
theorem candidates_eq (hab : Counterpart root root' a b) :
    candidates root' b name = candidates root a name := by
  rw [candidates_eq_foldl, candidates_eq_foldl, hab.map_lineage_hierarchy_eq]

theorem map_scopedName_resolve (h : (lineages root).Perm (lineages root'))
    (hab : Counterpart root root' a b) (name : Text) :
    (resolve root' (TypeMap.of root').value b name).map root'.scopedName =
      (resolve root (TypeMap.of root).value a name).map root.scopedName := by
  unfold resolve
  split
  · rw [candidates_eq hab, List.map_findSome?, List.map_findSome?]
    congr 1
    funext candidate
    exact map_scopedName_lookup h candidate
  · rfl

/-! ## Clauses mean the same -/

/-- A clause means the same for a declaration and its counterpart. -/
theorem meaning_baseType (h : (lineages root).Perm (lineages root'))
    (hab : Counterpart root root' a b) :
    (baseType root' (TypeMap.of root').value b clause).value.map (meaning root') =
      (baseType root (TypeMap.of root).value a clause).value.map (meaning root) := by
  unfold baseType
  dsimp only
  split
  · rfl
  · split
    · rfl
    · rename_i name _
      have hresolve := map_scopedName_resolve h hab name
      revert hresolve
      cases resolve root (TypeMap.of root).value a name <;>
        cases resolve root' (TypeMap.of root').value b name
      · exact fun _ => rfl
      · intro hresolve
        cases hresolve
      · intro hresolve
        cases hresolve
      · intro hresolve
        exact congrArg (fun name => some (Meaning.declared name)) (Option.some.inj hresolve)

theorem meaning_baseTypes (h : (lineages root).Perm (lineages root'))
    (hab : Counterpart root root' a b) (clauses : List Text) :
    (baseTypes root' (TypeMap.of root').value b clauses).value.map (meaning root') =
      (baseTypes root (TypeMap.of root).value a clauses).value.map (meaning root) := by
  induction clauses with
  | nil => rfl
  | cons clause clauses ih =>
    simp only [baseTypes, Noted.value_bind, Noted.value_pure, List.map_append, ih,
      ← Option.toList_map, meaning_baseType h hab]

/-- Links with the same parents, by name. -/
structure SameParents (root root' : Declaration) (l l' : Links) : Prop where
  parentClass?_eq : l'.parentClass?.map (meaning root') = l.parentClass?.map (meaning root)
  parentInterfaces_eq :
    l'.parentInterfaces.map (meaning root') = l.parentInterfaces.map (meaning root)

theorem SameParents.map_parents (h : SameParents root root' l l') :
    l'.parents.map (meaning root') = l.parents.map (meaning root) := by
  rw [Links.parents, Links.parents, List.map_append, List.map_append, ← Option.toList_map,
    ← Option.toList_map, h.parentClass?_eq, h.parentInterfaces_eq]

theorem sameParents_upwardLinks (h : (lineages root).Perm (lineages root'))
    (hab : Counterpart root root' a b) (i : Info) :
    SameParents root root' (upwardLinks root (TypeMap.of root).value a i).value
      (upwardLinks root' (TypeMap.of root').value b i).value := by
  unfold upwardLinks
  split
  · refine ⟨?_, meaning_baseTypes h hab _⟩
    simp only [Noted.value_bind, Noted.value_pure, ← List.head?_map, meaning_baseTypes h hab]
  · exact ⟨rfl, meaning_baseTypes h hab _⟩

/-! ## The graph -/

theorem isType_of_isInheriting {k? : Option Kind} (h : k?.any Kind.isInheriting = true) :
    k?.any Kind.isType = true := by
  obtain ⟨k, rfl, hk⟩ := (Option.any_eq_true _ _).mp h
  cases k <;> first | rfl | cases hk

/-- What a clause names is a type. -/
theorem isType_of_baseType
    (h : (baseType root (TypeMap.of root).value a clause).value = some (.declaration b)) :
    (root.kind? b).any Kind.isType = true := by
  unfold baseType at h
  dsimp only at h
  split at h
  · cases h
  · split at h
    · cases h
    · split at h
      · rename_i b hb
        cases h
        unfold resolve at hb
        split at hb
        · obtain ⟨candidate, _, hlookup⟩ := List.exists_of_findSome?_eq_some hb
          exact (TypeMap.scopedName_of_lookup hlookup).1
        · cases hb
      · cases h

theorem parentsOf_graphOf {types : TypeMap} {d : Declaration} (hd : root.get? a = some d)
    (hkind : d.kind.isInheriting = true) : (graphOf root types).value.parentsOf a =
      (upwardLinks root types a d.toInfo).value.parents := by
  rw [Graph.parentsOf, links?_graphOf hd hkind]
  rfl

/-- The inheritance graph of a tree, with the names looked up in its own type map. -/
def declaredGraph (root : Declaration) : Graph := (graphOf root (TypeMap.of root).value).value

/-- What has parents is a class or interface. -/
theorem exists_get?_of_mem_parentsOf (h : ref ∈ (declaredGraph root).parentsOf a) :
    ∃ d, root.get? a = some d ∧ d.kind.isInheriting = true := by
  obtain ⟨l, hl, _⟩ := mem_parentsOf.mp h
  have hlinked := graphOf_linkedBothWays root (TypeMap.of root).value
  have hkey := (hlinked.mem_keys a).mp
    (List.mem_map_of_mem ((lookup_eq_some_iff_mem hlinked.nodup_keys).mp hl))
  rcases hkey with hkind | hkind
  all_goals
    obtain ⟨d, hd, hkind⟩ := Option.map_eq_some_iff.mp hkind
    exact ⟨d, hd, by rw [hkind]; rfl⟩

theorem isType_of_mem_parentsOf (h : Ref.declaration b ∈ (declaredGraph root).parentsOf a) :
    (root.kind? b).any Kind.isType = true := by
  obtain ⟨d, hd, hkind⟩ := exists_get?_of_mem_parentsOf h
  rw [declaredGraph, parentsOf_graphOf hd hkind] at h
  obtain ⟨clause, hclause⟩ := exists_clause_of_mem_upwardLinks h
  exact isType_of_baseType hclause

section Counterparts

variable (h : (lineages root).Perm (lineages root'))
include h

/-- The parents of a class or interface are those of its counterpart, by name. -/
theorem exists_sameParents (hab : Counterpart root root' a b)
    (hkind : (root.kind? a).any Kind.isInheriting = true) :
    ∃ l l', (declaredGraph root).links? a = some l ∧ (declaredGraph root').links? b = some l' ∧
      SameParents root root' l l' := by
  obtain ⟨k, hk, hinheriting⟩ := (Option.any_eq_true _ _).mp hkind
  obtain ⟨d, hd, rfl⟩ := Option.map_eq_some_iff.mp hk
  obtain ⟨d', hd', hinfo⟩ := Option.map_eq_some_iff.mp
    (hab.info?_eq.trans (info?_of_get? hd))
  have hsame := sameParents_upwardLinks h hab d.toInfo
  rw [← hinfo] at hinheriting hsame
  refine ⟨_, _, links?_graphOf hd (hinfo ▸ hinheriting), links?_graphOf hd' hinheriting, ?_⟩
  exact ⟨hinfo ▸ hsame.parentClass?_eq, hinfo ▸ hsame.parentInterfaces_eq⟩

/-- What names a type as a parent has a counterpart that names the counterpart of the type. -/
theorem mem_parentsOf_counterpart (hunique : UniqueTypes root') (hab : Counterpart root root' a b)
    {child child' : Address} (hchild : Counterpart root root' child child')
    (hmem : Ref.declaration a ∈ (declaredGraph root).parentsOf child) :
    Ref.declaration b ∈ (declaredGraph root').parentsOf child' := by
  obtain ⟨d, hd, hkind⟩ := exists_get?_of_mem_parentsOf hmem
  obtain ⟨l, l', hl, hl', hsame⟩ := exists_sameParents h hchild
    (by rw [kind?_of_get? hd]; exact hkind)
  have hmeaning : Meaning.declared (root.scopedName a) ∈ l'.parents.map (meaning root') := by
    rw [hsame.map_parents]
    obtain ⟨_, hlinks, hparent⟩ := mem_parentsOf.mp hmem
    obtain rfl := Option.some.inj (hl.symm.trans hlinks)
    exact List.mem_map_of_mem hparent
  obtain ⟨ref, href, heq⟩ := List.mem_map.mp hmeaning
  have hparent : ref ∈ (declaredGraph root').parentsOf child' := mem_parentsOf.mpr ⟨l', hl', href⟩
  cases ref with
  | label name => cases heq
  | declaration c =>
    have hname : root'.scopedName c = root'.scopedName b :=
      (Meaning.declared.inj heq).trans hab.scopedName_eq.symm
    have htype : (root'.kind? b).any Kind.isType = true :=
      hab.kind?_eq ▸ isType_of_mem_parentsOf hmem
    rwa [hunique c b (isType_of_mem_parentsOf hparent) htype hname] at hparent

/-- The children of one kind have counterparts that are children of the counterpart. -/
theorem mem_map_children {k : Kind} {children children' : List Address}
    (hunique : UniqueTypes root') (hab : Counterpart root root' a b)
    (hchildren : ∀ c, c ∈ children ↔
      root.kind? c = some k ∧ Ref.declaration a ∈ (declaredGraph root).parentsOf c)
    (hchildren' : ∀ c, c ∈ children' ↔
      root'.kind? c = some k ∧ Ref.declaration b ∈ (declaredGraph root').parentsOf c)
    (hname : name ∈ children.map root.scopedName) : name ∈ children'.map root'.scopedName := by
  obtain ⟨child, hmem, rfl⟩ := List.mem_map.mp hname
  obtain ⟨hkind, hparent⟩ := (hchildren child).mp hmem
  obtain ⟨child', hchild⟩ := exists_counterpart h (mem_walk_of_kind? hkind)
  refine List.mem_map.mpr ⟨child', (hchildren' child').mpr ⟨?_, ?_⟩, hchild.scopedName_eq⟩
  · rw [hchild.kind?_eq, hkind]
  · exact mem_parentsOf_counterpart h hunique hab hchild hparent

end Counterparts

/-- Links that tell the same by name: the same parents in the same order, and the same children. -/
structure SameLinks (root root' : Declaration) (l l' : Links) : Prop
    extends SameParents root root' l l' where
  mem_childClasses : ∀ name,
    name ∈ l'.childClasses.map root'.scopedName ↔ name ∈ l.childClasses.map root.scopedName
  mem_childInterfaces : ∀ name,
    name ∈ l'.childInterfaces.map root'.scopedName ↔ name ∈ l.childInterfaces.map root.scopedName

/-- The graphs tell the same of a class or interface and of its counterpart. -/
theorem exists_sameLinks (h : (lineages root).Perm (lineages root')) (hunique : UniqueTypes root)
    (hab : Counterpart root root' a b) (hkind : (root.kind? a).any Kind.isInheriting = true) :
    ∃ l l', (declaredGraph root).links? a = some l ∧ (declaredGraph root').links? b = some l' ∧
      SameLinks root root' l l' := by
  obtain ⟨l, l', hl, hl', hsame⟩ := exists_sameParents h hab hkind
  have hlinked := graphOf_linkedBothWays root (TypeMap.of root).value
  have hlinked' := graphOf_linkedBothWays root' (TypeMap.of root').value
  have hunique' := hunique.of_perm h
  refine ⟨l, l', hl, hl', hsame, fun name => ⟨?_, ?_⟩, fun name => ⟨?_, ?_⟩⟩
  · exact mem_map_children h.symm hunique hab.symm (hlinked'.mem_childClasses b l' hl')
      (hlinked.mem_childClasses a l hl)
  · exact mem_map_children h hunique' hab (hlinked.mem_childClasses a l hl)
      (hlinked'.mem_childClasses b l' hl')
  · exact mem_map_children h.symm hunique hab.symm (hlinked'.mem_childInterfaces b l' hl')
      (hlinked.mem_childInterfaces a l hl)
  · exact mem_map_children h hunique' hab (hlinked.mem_childInterfaces a l hl)
      (hlinked'.mem_childInterfaces b l' hl')

/-- A class or interface has a namesake of its kind in a tree with the same declarations. -/
theorem exists_namesake (h : (lineages root).Perm (lineages root'))
    (hkind : (root.kind? a).any Kind.isInheriting = true) :
    ∃ b, Counterpart root root' a b ∧ root'.kind? b = root.kind? a ∧
      root'.scopedName b = root.scopedName a := by
  obtain ⟨k, hk, _⟩ := (Option.any_eq_true _ _).mp hkind
  obtain ⟨b, hb⟩ := exists_counterpart h (mem_walk_of_kind? hk)
  exact ⟨b, hb, hb.kind?_eq, hb.scopedName_eq⟩

/-- Let two trees differ in the order of members only, and let no two types have the same full
name. Then they have the same classes and interfaces by name, and of each of these both inheritance
graphs tell the same parents and the same children. -/
theorem graphOf_of_reordered (h : Reordered root root') (hunique : UniqueTypes root) :
    (∀ a, (root.kind? a).any Kind.isInheriting = true →
      ∃ b, root'.kind? b = root.kind? a ∧ root'.scopedName b = root.scopedName a) ∧
    (∀ b, (root'.kind? b).any Kind.isInheriting = true →
      ∃ a, root.kind? a = root'.kind? b ∧ root.scopedName a = root'.scopedName b) ∧
    ∀ a b, (root.kind? a).any Kind.isInheriting = true →
      (root'.kind? b).any Kind.isInheriting = true → root'.scopedName b = root.scopedName a →
      ∃ l l', (declaredGraph root).links? a = some l ∧ (declaredGraph root').links? b = some l' ∧
        SameLinks root root' l l' := by
  have hperm := h.perm_lineages
  refine ⟨fun a ha => ?_, fun b hb => ?_, fun a b ha hb hname => ?_⟩
  · obtain ⟨b, _, hb⟩ := exists_namesake hperm ha
    exact ⟨b, hb⟩
  · obtain ⟨a, _, ha⟩ := exists_namesake hperm.symm hb
    exact ⟨a, ha⟩
  · obtain ⟨c, hac, hkind, hc⟩ := exists_namesake hperm ha
    -- no other type of the second tree has the name
    obtain rfl : c = b := hunique.of_perm hperm c b (isType_of_isInheriting (hkind ▸ ha))
      (isType_of_isInheriting hb) (hc.trans hname.symm)
    exact exists_sameLinks hperm hunique hac ha

/-- A class that extends one in a namespace. -/
def horse : Declaration :=
  ⟨{ Info.plain .classType "Horse" with extendsTypes := ["Zoo.Animal<string>"] }, []⟩

/-- A class that implements an interface of its namespace, and one that is declared elsewhere. -/
def animal : Declaration :=
  ⟨{ Info.plain .classType "Animal" with implementsTypes := ["Beast", "Other"] }, []⟩

def beast : Declaration := ⟨.plain .interfaceType "Beast", []⟩

/-- A package with members of containers at two levels in one order, or in another one. -/
def ranch (inner outer : List Declaration → List Declaration) : Declaration :=
  ⟨.plain .package "ranch", [⟨.plain .entryPoint [],
    outer [horse, ⟨.plain .nameSpace "Zoo", inner [beast, animal]⟩]⟩]⟩

theorem graphOf_of_reordered_ranch :
    Reordered (ranch id id) (ranch List.reverse List.reverse) ∧ UniqueTypes (ranch id id) ∧
    ∃ l l', (declaredGraph (ranch id id)).links? [0, 1, 1] = some l ∧
      (declaredGraph (ranch List.reverse List.reverse)).links? [0, 0, 0] = some l' ∧
      SameLinks (ranch id id) (ranch List.reverse List.reverse) l l' := by
  have hinner : Reorders (ranch id id) (ranch List.reverse id) :=
    .inside _ [] [] (.inside _ [horse] [] (.here _ (List.Perm.swap animal beast [])))
  have houter : Reorders (ranch List.reverse id) (ranch List.reverse List.reverse) :=
    .inside _ [] [] (.here _ (List.Perm.swap _ horse []))
  have hreordered : Reordered (ranch id id) (ranch List.reverse List.reverse) :=
    .tail (.single hinner) houter
  have hunique : UniqueTypes (ranch id id) := uniqueTypes_iff.mpr (by decide +kernel)
  refine ⟨hreordered, hunique, ?_⟩
  exact (graphOf_of_reordered hreordered hunique).2.2 [0, 1, 1] [0, 0, 0] rfl rfl rfl

/-- The class in the namespace has the same parent and the same child, which stand elsewhere. -/
example : (declaredGraph (ranch id id)).links? [0, 1, 1] =
      some ⟨none, [[0, 0]], [.declaration [0, 1, 0], .label "Other"], []⟩ ∧
    (declaredGraph (ranch List.reverse List.reverse)).links? [0, 0, 0] =
      some ⟨none, [[0, 1]], [.declaration [0, 0, 1], .label "Other"], []⟩ := by
  decide +kernel

end ApiReference.Inheritance
