import ApiReference.Inheritance.Tree
import ApiReference.Proofs.Inheritance.Children
import ApiReference.Proofs.Inheritance.Resolved
import ApiReference.Proofs.Scope.Declared

/-!
# Hierarchies name declarations

The links of an inheritance graph lead to declarations of the tree that the graph was
made from, or are just names, and so does everything that is shown in a diagram.  The
members of a type, own or inherited, are declarations of the tree as well.
-/

namespace ApiReference.Inheritance

open Declaration Scope

variable {root : Declaration} {types : TypeMap} {g : Graph} {l : Links} {a : Address} {ref : Ref}
variable {tree : Tree} {direction : Direction} {seen : List Address}

/-- A name, or a declaration of a tree. -/
def Names (root : Declaration) (ref : Ref) : Prop := ∀ a, ref = .declaration a → a ∈ root.walk

theorem names_declaration : Names root (.declaration a) ↔ a ∈ root.walk := by
  constructor
  · intro h
    exact h a rfl
  · rintro h b hb
    cases hb
    exact h

/-! ## Graphs -/

/-- Links that lead to declarations of a tree, or are just names. -/
structure LinksWithin (root : Declaration) (l : Links) : Prop where
  parents : ∀ ref ∈ l.parents, Names root ref
  childClasses : ∀ a ∈ l.childClasses, a ∈ root.walk
  childInterfaces : ∀ a ∈ l.childInterfaces, a ∈ root.walk

/-- A graph all of whose links lead to declarations of a tree. -/
def GraphWithin (root : Declaration) (g : Graph) : Prop :=
  ∀ a l, g.links? a = some l → LinksWithin root l

/-- What a list of clauses names is what some clause names. -/
theorem exists_clause_of_mem_baseTypes {clauses : List Text}
    (href : ref ∈ (baseTypes root types a clauses).value) :
    ∃ clause, (baseType root types a clause).value = some ref := by
  induction clauses with
  | nil => exact absurd href List.not_mem_nil
  | cons clause clauses ih =>
    simp only [baseTypes, Noted.value_bind, Noted.value_pure, List.mem_append,
      Option.mem_toList] at href
    rcases href with href | href
    · exact ⟨clause, href⟩
    · exact ih href

theorem exists_clause_of_mem_upwardLinks {i : Info}
    (href : ref ∈ (upwardLinks root types a i).value.parents) :
    ∃ clause, (baseType root types a clause).value = some ref := by
  unfold upwardLinks at href
  split at href
  · rcases List.mem_append.mp href with href | href
    · exact exists_clause_of_mem_baseTypes (List.mem_of_mem_head? (Option.mem_toList.mp href))
    · exact exists_clause_of_mem_baseTypes href
  · exact exists_clause_of_mem_baseTypes href

theorem names_of_mem_upwardLinks (h : types.Within root) {i : Info}
    (href : ref ∈ (upwardLinks root types a i).value.parents) : Names root ref := by
  obtain ⟨clause, hclause⟩ := exists_clause_of_mem_upwardLinks href
  rintro b rfl
  exact mem_walk_of_baseType h hclause

theorem names_of_mem_upward (h : types.Within root) {as : List Address} {e : Address × Links}
    (he : e ∈ (upward root types as).value) : ∀ ref ∈ e.2.parents, Names root ref := by
  induction as with
  | nil => exact absurd he List.not_mem_nil
  | cons a as ih =>
    unfold upward at he
    split at he
    · exact ih he
    · split at he
      · rcases List.mem_cons.mp he with rfl | he
        · exact fun ref => names_of_mem_upwardLinks h
        · exact ih he
      · exact ih he

/-- The graph of a tree is the first pass with the children entered. -/
theorem value_graphOf (root : Declaration) (types : TypeMap) : (graphOf root types).value =
    (upward root types root.walk).value.map (enter root (upward root types root.walk).value) := by
  refine downward_eq_map ?_ fun _ he => childless_upward he
  rw [keys_upward]
  exact (nodup_walk root).filter _

/-- The children that are entered have entries of their own. -/
theorem mem_walk_of_mem_children {isClass : Bool} {b : Address}
    (h : b ∈ children root isClass (upward root types root.walk).value a) : b ∈ root.walk := by
  have hkey := (children_sublist_keys root isClass _ a).subset h
  rw [keys_upward] at hkey
  exact (List.mem_filter.mp hkey).1

theorem graphWithin_graphOf (h : types.Within root) :
    GraphWithin root (graphOf root types).value := by
  intro a l hl
  rw [value_graphOf, links?_map_enter] at hl
  obtain ⟨l', hl', rfl⟩ := Option.map_eq_some_iff.mp hl
  have hparents := names_of_mem_upward h (mem_of_lookup hl')
  exact ⟨hparents, fun _ => mem_walk_of_mem_children,
    fun _ => mem_walk_of_mem_children⟩

theorem LinksWithin.follow (h : LinksWithin root l) (href : ref ∈ l.follow direction) :
    Names root ref := by
  cases direction with
  | childClasses =>
    obtain ⟨a, ha, rfl⟩ := List.mem_map.mp href
    exact names_declaration.mpr (h.childClasses a ha)
  | childInterfaces =>
    obtain ⟨a, ha, rfl⟩ := List.mem_map.mp href
    exact names_declaration.mpr (h.childInterfaces a ha)
  | parentInterfaces => exact h.parents ref (List.mem_append_right _ href)

/-! ## Diagrams -/

/-- A diagram in which all types are declarations of a tree, or just names. -/
inductive TreeWithin (root : Declaration) : Tree → Prop
  | node {item : Ref} {children : List Tree} : Names root item →
      (∀ t ∈ children, TreeWithin root t) → TreeWithin root (.node item children)

theorem TreeWithin.leaf (h : Names root ref) : TreeWithin root (.leaf ref) :=
  .node h fun _ ht => absurd ht List.not_mem_nil

theorem treeWithin_childTreeFrom (hg : GraphWithin root g) (seen : List Address) (ref : Ref)
    (href : Names root ref) : TreeWithin root (childTreeFrom g direction seen ref) := by
  fun_induction childTreeFrom g direction seen ref with
  | case1 seen name => exact .leaf href
  | case2 seen a ha => exact .leaf href
  | case3 seen a ha hl => exact .leaf href
  | case4 seen a ha l hl ih =>
    refine .node href fun t ht => ?_
    obtain ⟨child, hchild, rfl⟩ := List.mem_map.mp ht
    exact ih child ((hg a l hl).follow (List.mem_filter.mp hchild).1)

theorem treeWithin_childTree (hg : GraphWithin root g) (direction : Direction)
    (ha : a ∈ root.walk) : TreeWithin root (childTree g direction (.declaration a)) :=
  treeWithin_childTreeFrom hg [] _ (names_declaration.mpr ha)

theorem treeWithin_of_mem_graft {children : List Address} (hc : ∀ a ∈ children, a ∈ root.walk)
    (ht : TreeWithin root tree) : ∀ t ∈ graft children tree, TreeWithin root t := by
  have hleaf : ∀ a ∈ children, TreeWithin root (.leaf (.declaration a)) := fun a ha =>
    .leaf (names_declaration.mpr (hc a ha))
  intro t hmem
  unfold graft at hmem
  split at hmem
  · obtain ⟨a, ha, rfl⟩ := List.mem_map.mp hmem
    split
    · exact ht
    · exact hleaf a ha
  · rcases List.mem_append.mp hmem with hmem | hmem
    · obtain ⟨a, ha, rfl⟩ := List.mem_map.mp hmem
      exact hleaf a ha
    · rw [List.mem_singleton.mp hmem]
      exact ht

theorem treeWithin_parentTreeFrom (hg : GraphWithin root g) (seen : List Address) (ref : Ref)
    (tree : Tree) (href : Names root ref) (ht : TreeWithin root tree) :
    TreeWithin root (parentTreeFrom g seen ref tree) := by
  have hsingle : ∀ t ∈ [tree], TreeWithin root t := by
    simpa using ht
  fun_induction parentTreeFrom g seen ref tree with
  | case1 seen tree name => exact .node href hsingle
  | case2 seen tree a ha => exact ht
  | case3 seen tree a ha hl => exact .node href hsingle
  | case4 seen tree a ha l hl above hparent =>
    exact .node href (treeWithin_of_mem_graft (hg a l hl).childClasses ht)
  | case5 seen tree a ha l hl above parent hparent ih =>
    have habove : TreeWithin root above :=
      .node href (treeWithin_of_mem_graft (hg a l hl).childClasses ht)
    refine ih ?_ habove (by simpa using habove)
    exact (hg a l hl).parents parent
      (List.mem_append_left _ (Option.mem_toList.mpr hparent))

/-- The class tree around a class of the tree. -/
theorem treeWithin_classTree (hg : GraphWithin root g) (ha : a ∈ root.walk) :
    TreeWithin root (classTree g a) := by
  have hbelow := treeWithin_childTree hg .childClasses ha
  unfold classTree
  dsimp only
  split
  · rename_i parent hparent
    obtain ⟨l, hl, hp⟩ := Option.bind_eq_some_iff.mp hparent
    refine treeWithin_parentTreeFrom hg [] parent _ ?_ hbelow
    exact (hg a l hl).parents parent (List.mem_append_left _ (Option.mem_toList.mpr hp))
  · exact hbelow

/-! ## Members -/

/-- The entry of a name has all own and all inherited members of that name. -/
theorem named_of_mem_resolvedMembers {r : Resolved} (hr : r ∈ resolvedMembers root g a) :
    r.own = named root (root.membersAt a) r.name ∧
      r.parents = named root ((ancestors g a).flatMap root.membersAt) r.name := by
  have hown := tabulates_groupByName root (root.membersAt a)
  have hinh := tabulates_groupByName root ((ancestors g a).flatMap root.membersAt)
  have hjoin := joins_of_mem_joinByName (sortedByName_sortByName hown.nodup_keys)
    (sortedByName_sortByName hinh.nodup_keys) hr
  constructor
  · rw [hjoin.own, (hown.perm (perm_sortByName _)).getD_lookup]
  · rw [hjoin.parents]
    exact (hinh.perm (perm_sortByName _)).getD_lookup

theorem mem_walk_of_mem_resolved {r : Resolved} (hr : r ∈ resolvedMembers root g a) {b : Address}
    (hb : b ∈ r.own ∨ b ∈ r.parents) : b ∈ root.walk := by
  obtain ⟨hown, hparents⟩ := named_of_mem_resolvedMembers hr
  rcases hb with hb | hb
  · rw [hown] at hb
    exact mem_walk_of_mem_membersAt (List.mem_of_mem_filter hb)
  · rw [hparents] at hb
    obtain ⟨c, _, hc⟩ := List.mem_flatMap.mp (List.mem_of_mem_filter hb)
    exact mem_walk_of_mem_membersAt hc

/-- No own member is left out. -/
theorem exists_resolved_of_mem_membersAt (g : Graph) {m : Address} (hm : m ∈ root.membersAt a) :
    ∃ r ∈ resolvedMembers root g a, m ∈ r.own := by
  have hown := (tabulates_groupByName root (root.membersAt a)).perm (perm_sortByName _)
  have hname : root.nameAt m ∈ (resolvedMembers root g a).map Resolved.name :=
    (mem_names_joinByName _ _).mpr (.inl (hown.mem_keys.mpr (named_ne_nil_iff.mpr ⟨m, hm, rfl⟩)))
  obtain ⟨r, hr, heq⟩ := List.mem_map.mp hname
  refine ⟨r, hr, ?_⟩
  rw [(named_of_mem_resolvedMembers hr).1]
  exact List.mem_filter.mpr ⟨hm, decide_eq_true heq.symm⟩

end ApiReference.Inheritance
