import ApiReference.Proofs.Inheritance.Edges
import ApiReference.Proofs.Inheritance.Hierarchy

/-!
# The spine of a class tree

The class tree of a class is built from the bottom: what is below the class, and around it
one tree for each type of its chain of parent classes (`IsParentChain`).  Each of these
carries the one before among its child classes, all others of which are leaves
(`Carries`).  A parent class always has the class as a child, since the graph tells the
same from both ends, so no tree is put behind the child classes (`carries_graft`).  If the
chain comes to no declaration twice it is gone up to its end
(`exists_spine_parentTreeFrom`).
-/

namespace ApiReference.Inheritance

open Declaration Scope

variable {root : Declaration} {types : TypeMap} {g : Graph} {l : Links} {a b c : Address}
variable {ref parent : Ref} {chain : List Ref} {tree : Tree} {seen : List Address} {k m n : Nat}

/-! ## Chains of parent classes -/

/-- The parent class of a type. Labels and types outside of the graph have none. -/
def Graph.parentClass? (g : Graph) : Ref → Option Ref
  | .declaration a => (g.links? a).bind Links.parentClass?
  | .label _ => none

/-- The chain of parent classes from a type up to one that has none. -/
structure IsParentChain (g : Graph) (ref : Ref) (chain : List Ref) : Prop where
  head?_eq : chain.head? = some ref
  isChain : chain.IsChain fun lower upper => g.parentClass? lower = some upper
  ended : ∀ last ∈ chain.getLast?, g.parentClass? last = none

namespace IsParentChain

theorem single (h : g.parentClass? ref = none) : IsParentChain g ref [ref] where
  head?_eq := rfl
  isChain := .singleton ref
  ended last hlast := by
    obtain rfl := Option.some.inj hlast
    exact h

theorem cons (hparent : g.parentClass? ref = some parent) (h : IsParentChain g parent chain) :
    IsParentChain g ref (ref :: chain) := by
  obtain ⟨rest, rfl⟩ := List.head?_eq_some_iff.mp h.head?_eq
  constructor
  · rfl
  · exact List.isChain_cons_cons.mpr ⟨hparent, h.isChain⟩
  · rw [List.getLast?_cons_cons]
    exact h.ended

end IsParentChain

/-- The chain of parent classes comes to no declaration twice. -/
def ParentsApart (g : Graph) (ref : Ref) : Prop :=
  ∀ b m n, Above g b m ref → Above g b n ref → m = n

theorem ParentsApart.up (h : ParentsApart g (.declaration a))
    (hparent : g.parentClass? (.declaration a) = some parent) : ParentsApart g parent := by
  intro b m n hm hn
  exact Nat.succ.inj (h b (m + 1) (n + 1) (.up hparent hm) (.up hparent hn))

/-- Further up a chain is what lies above a type on it. -/
theorem Above.above (hb : Above g b m ref) (hc : Above g c (m + k) ref) :
    Above g c k (.declaration b) := by
  induction hb with
  | here => rwa [Nat.zero_add] at hc
  | @up m a parent hparent _ ih =>
    rw [Nat.succ_add] at hc
    cases hc with
    | up hparent' hc =>
      obtain rfl := Option.some.inj (hparent.symm.trans hparent')
      exact ih hc

/-- In a graph without cycles no chain of parent classes repeats. -/
theorem Acyclic.parentsApart (h : Acyclic g) (ref : Ref) : ParentsApart g ref := by
  have hlt : ∀ b m n, Above g b m ref → Above g b n ref → ¬ m < n := by
    intro b m n hm hn hlt
    obtain ⟨k, rfl⟩ := Nat.exists_eq_add_of_lt hlt
    exact h b k ((hm.above hn).ascent rfl)
  intro b m n hm hn
  exact le_antisymm (not_lt.mp (hlt b n m hn hm)) (not_lt.mp (hlt b m n hm hn))

/-- Only classes have parent classes. -/
theorem kind?_of_parentClass?
    (h : (graphOf root types).value.parentClass? (.declaration a) = some parent) :
    root.kind? a = some .classType := by
  have hlinked := graphOf_linkedBothWays root types
  obtain ⟨l, hl, hparent⟩ := Option.bind_eq_some_iff.mp h
  have hkey : a ∈ (graphOf root types).value.map Prod.fst :=
    List.mem_map_of_mem ((lookup_eq_some_iff_mem hlinked.nodup_keys).mp hl)
  rcases (hlinked.mem_keys a).mp hkey with hclass | hinterface
  · exact hclass
  · obtain ⟨d, hd, hkind⟩ := Option.map_eq_some_iff.mp hinterface
    have hlinks := hl.symm.trans (links?_graphOf hd (by rw [hkind]; rfl))
    have hnone : (upwardLinks root types a d.toInfo).value.parentClass? = none := by
      unfold upwardLinks
      rw [if_neg (by rw [hkind]; decide)]
      rfl
    obtain rfl := Option.some.inj hlinks
    exact absurd (hnone.symm.trans hparent) (by simp)

/-! ## Spines -/

/-- A tree of a spine stands below the next one. -/
structure Carries (g : Graph) (below above : Tree) : Prop where
  /-- Below a label, or a type outside of the graph, it stands alone. -/
  alone : above.item.address?.bind g.links? = none → above.children = [below]
  /-- Otherwise it stands among the child classes. These are all there, in order and each once, and
  the others are leaves. -/
  among : ∀ l, above.item.address?.bind g.links? = some l →
    above.children.map Tree.item = l.childClasses.map .declaration ∧ l.childClasses.Nodup ∧
      below ∈ above.children ∧
      ∀ t ∈ above.children, t.item ≠ below.item → t.children = []

theorem carries_single (h : ref.address?.bind g.links? = none) (tree : Tree) :
    Carries g tree (.node ref [tree]) where
  alone _ := rfl
  among l hl := absurd (h.symm.trans hl) (by simp)

/-- A tree that is one of the child classes is put in its place. -/
theorem carries_graft (hl : g.links? b = some l) (hnodup : l.childClasses.Nodup)
    (hitem : tree.item ∈ l.childClasses.map Ref.declaration) :
    Carries g tree (.node (.declaration b) (graft l.childClasses tree)) := by
  have hgraft : graft l.childClasses tree = l.childClasses.map fun a =>
      if tree.item = .declaration a then tree else .leaf (.declaration a) :=
    if_pos (List.contains_iff_mem.mpr hitem)
  constructor
  · intro hnone
    exact absurd (hl.symm.trans hnone) (by simp)
  · intro l' hl'
    obtain rfl := Option.some.inj (hl.symm.trans hl')
    show (graft l.childClasses tree).map Tree.item = _ ∧ _ ∧ tree ∈ graft l.childClasses tree ∧
      ∀ t ∈ graft l.childClasses tree, _
    rw [hgraft, List.map_map]
    refine ⟨?_, hnodup, ?_, ?_⟩
    · apply List.map_congr_left
      intro a _
      rw [Function.comp_apply]
      split
      · assumption
      · rfl
    · obtain ⟨c, hc, heq⟩ := List.mem_map.mp hitem
      exact List.mem_map.mpr ⟨c, hc, if_pos heq.symm⟩
    · rintro t ht hne
      obtain ⟨a, -, rfl⟩ := List.mem_map.mp ht
      split
      · rename_i hplace
        exact absurd (by rw [if_pos hplace]) hne
      · rfl

/-- Above a tree whose type has a parent class, the chain of that one is gone up to its end. -/
theorem exists_spine_parentTreeFrom (hlinked : LinkedBothWays root g)
    (hclasses : ∀ a parent, g.parentClass? (.declaration a) = some parent →
      root.kind? a = some .classType)
    (hparent : g.parentClass? tree.item = some ref)
    (hapart : ParentsApart g ref) (hseen : ∀ b n, Above g b n ref → b ∉ seen) :
    ∃ spine : List Tree, IsParentChain g ref (spine.map Tree.item) ∧
      (tree :: spine).IsChain (Carries g) ∧
      (tree :: spine).getLast? = some (parentTreeFrom g seen ref tree) := by
  have hgraft : ∀ {tree : Tree} {b : Address} {l : Links}, g.links? b = some l →
      g.parentClass? tree.item = some (.declaration b) →
      Carries g tree (.node (.declaration b) (graft l.childClasses tree)) := by
    intro tree b l hl hparent
    refine carries_graft hl (hlinked.nodup_children b l hl).1 ?_
    match hitem : tree.item with
    | .label name =>
      rw [hitem] at hparent
      cases hparent
    | .declaration c =>
      rw [hitem] at hparent
      refine List.mem_map_of_mem ((hlinked.mem_childClasses b l hl c).mpr ?_)
      exact ⟨hclasses c _ hparent, mem_parentsOf_of_parentClass hparent⟩
  fun_induction parentTreeFrom g seen ref tree with
  | case1 seen tree name =>
    refine ⟨[.node (.label name) [tree]], .single rfl, ?_, rfl⟩
    exact List.isChain_cons_cons.mpr ⟨carries_single rfl tree, .singleton _⟩
  | case2 seen tree b hb => exact absurd hb (hseen b 0 .here)
  | case3 seen tree b hb hl =>
    have hout : (Ref.declaration b).address?.bind g.links? = none := hl
    have hnone : g.parentClass? (.declaration b) = none := by
      rw [Graph.parentClass?, hl]
      rfl
    refine ⟨[.node (.declaration b) [tree]], .single hnone, ?_, rfl⟩
    exact List.isChain_cons_cons.mpr ⟨carries_single hout tree, .singleton _⟩
  | case4 seen tree b hb l hl above hnone =>
    have hend : g.parentClass? (.declaration b) = none := by
      rw [Graph.parentClass?, hl]
      exact hnone
    refine ⟨[above], .single hend, ?_, rfl⟩
    exact List.isChain_cons_cons.mpr ⟨hgraft hl hparent, .singleton _⟩
  | case5 seen tree b hb l hl above parent hup ih =>
    have hnext : g.parentClass? (.declaration b) = some parent := by
      rw [Graph.parentClass?, hl]
      exact hup
    have hseen' : ∀ c n, Above g c n parent → c ∉ b :: seen := by
      intro c n habove hmem
      have hlater : Above g c (n + 1) (.declaration b) := .up hnext habove
      rcases List.mem_cons.mp hmem with rfl | hmem
      · exact absurd (hapart c 0 (n + 1) .here hlater) (by omega)
      · exact hseen c (n + 1) hlater hmem
    obtain ⟨spine, hchain, hcarries, hlast⟩ := ih hnext (hapart.up hnext) hseen'
    refine ⟨above :: spine, hchain.cons hnext, ?_, ?_⟩
    · exact List.isChain_cons_cons.mpr ⟨hgraft hl hparent, hcarries⟩
    · rwa [List.getLast?_cons_cons]

/-- Let the chain of parent classes of a class come to no declaration twice. Then the chain has an
end, and the class tree is a spine that has the types of the chain from the bottom to the root: at
the bottom stands what is reached from the class by child classes, and every other tree of the spine
carries the one before, alone below a label or a type that the graph does not have, and otherwise in
its place among the child classes, of which all others are leaves. -/
theorem classTree_spine (hapart : ParentsApart (graphOf root types).value (.declaration a)) :
    ∃ spine : List Tree,
      IsParentChain (graphOf root types).value (.declaration a) (spine.map Tree.item) ∧
      spine.head? = some (childTree (graphOf root types).value .childClasses (.declaration a)) ∧
      spine.IsChain (Carries (graphOf root types).value) ∧
      spine.getLast? = some (classTree (graphOf root types).value a) := by
  have hlinked := graphOf_linkedBothWays root types
  generalize hg : (graphOf root types).value = g at *
  have hclasses : ∀ a parent, g.parentClass? (.declaration a) = some parent →
      root.kind? a = some .classType := fun a parent h => kind?_of_parentClass? (hg ▸ h)
  unfold classTree
  dsimp only
  split
  · rename_i parent hparent
    have hbottom : g.parentClass? (childTree g .childClasses (.declaration a)).item =
        some parent := by
      rw [item_childTree]
      exact hparent
    obtain ⟨spine, hchain, hcarries, hlast⟩ := exists_spine_parentTreeFrom hlinked hclasses
      hbottom (hapart.up hparent) (fun _ _ _ => List.not_mem_nil)
    refine ⟨_ :: spine, ?_, rfl, hcarries, hlast⟩
    rw [List.map_cons, item_childTree]
    exact hchain.cons hparent
  · rename_i hnone
    refine ⟨[childTree g .childClasses (.declaration a)], ?_, rfl, .singleton _, rfl⟩
    rw [List.map_singleton, item_childTree]
    exact .single hnone

/-- A package with three generations of classes, the first of which extends a type that is declared
elsewhere. -/
def litter : Declaration :=
  ⟨.plain .package "litter", [⟨.plain .entryPoint [], [
    ⟨{ Info.plain .classType "Animal" with extendsTypes := ["Creature"] }, []⟩,
    ⟨{ Info.plain .classType "Dog" with extendsTypes := ["Animal"] }, []⟩,
    ⟨{ Info.plain .classType "Cat" with extendsTypes := ["Animal"] }, []⟩,
    ⟨{ Info.plain .classType "Hound" with extendsTypes := ["Dog"] }, []⟩]⟩]⟩

theorem classTree_spine_of_dog :
    ParentsApart (graphOf litter (TypeMap.of litter).value).value (.declaration [0, 1]) ∧
    ∃ spine : List Tree,
      IsParentChain (graphOf litter (TypeMap.of litter).value).value (.declaration [0, 1])
        (spine.map Tree.item) ∧
      spine.head? = some (childTree (graphOf litter (TypeMap.of litter).value).value .childClasses
        (.declaration [0, 1])) ∧
      spine.IsChain (Carries (graphOf litter (TypeMap.of litter).value).value) ∧
      spine.getLast? =
        some (classTree (graphOf litter (TypeMap.of litter).value).value [0, 1]) := by
  have hfalls : Falls List.sum (graphOf litter (TypeMap.of litter).value).value := by
    decide +kernel
  have hapart := hfalls.acyclic.parentsApart (.declaration [0, 1])
  exact ⟨hapart, classTree_spine hapart⟩

end ApiReference.Inheritance
