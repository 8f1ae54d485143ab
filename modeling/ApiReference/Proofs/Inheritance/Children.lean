import ApiReference.Inheritance.Graph
import ApiReference.Proofs.Declaration.Walk
import ApiReference.Proofs.Lookup

/-!
# Children in the inheritance graph

The second pass over the graph enters each declaration with its parents.  What it
has made of the graph after some of the entries can be said without the pass: every
declaration has as children those among these entries that name it as a parent,
classes and interfaces apart (`enter`).  One entry keeps this (`connect_enter`),
whatever its parents are, and so the finished graph tells the same from both ends.
-/

namespace ApiReference.Inheritance

open Declaration Scope

variable {root : Declaration} {types : TypeMap} {g done : Graph} {l : Links} {a b : Address}
variable {isClass : Bool}

/-! ## The parents -/

/-- The first pass has an entry for each class and interface among some addresses. -/
theorem keys_upward (root : Declaration) (types : TypeMap) (as : List Address) :
    (upward root types as).value.map Prod.fst =
      as.filter fun a => (root.kind? a).any Kind.isInheriting := by
  induction as with
  | nil => rfl
  | cons a as ih =>
    cases hd : root.get? a with
    | none => simp [upward, Declaration.kind?, hd, ih]
    | some d =>
      have hkind : root.kind? a = some d.kind := by rw [Declaration.kind?, hd]; rfl
      by_cases hk : d.kind.isInheriting
      · simp only [upward, hd, hk, if_true, Noted.value_bind, Noted.value_pure, List.map_cons, ih]
        simp [hkind, hk]
      · simp [upward, hkind, hd, hk, ih]

theorem childless_upwardLinks (root : Declaration) (types : TypeMap) (a : Address) (i : Info) :
    (upwardLinks root types a i).value.childClasses = [] ∧
      (upwardLinks root types a i).value.childInterfaces = [] := by
  unfold upwardLinks
  split <;> exact ⟨rfl, rfl⟩

/-- The first pass enters no children. -/
theorem childless_upward {as : List Address} {e : Address × Links}
    (he : e ∈ (upward root types as).value) :
    e.2.childClasses = [] ∧ e.2.childInterfaces = [] := by
  induction as with
  | nil => exact absurd he List.not_mem_nil
  | cons a as ih =>
    cases hd : root.get? a with
    | none => exact ih (by simpa [upward, hd] using he)
    | some d =>
      by_cases hk : d.kind.isInheriting
      · simp only [upward, hd, hk, if_true, Noted.value_bind, Noted.value_pure,
          List.mem_cons] at he
        rcases he with rfl | he
        · exact childless_upwardLinks root types a d.toInfo
        · exact ih he
      · exact ih (by simpa [upward, hd, hk] using he)

/-! ## Entering a declaration with its parents -/

theorem Links.addChild_addChild (kind? : Option Kind) (child : Address) (l : Links) :
    (l.addChild kind? child).addChild kind? child = l.addChild kind? child := by
  by_cases hk : kind? = some .classType
  · by_cases hc : child ∈ l.childClasses <;> simp [Links.addChild, hk, hc]
  · by_cases hc : child ∈ l.childInterfaces <;> simp [Links.addChild, hk, hc]

/-- A child is entered with exactly the declared parents, however often they are named. -/
theorem connect_eq_map (kind? : Option Kind) (child : Address) (parents : List Ref) (g : Graph) :
    connect kind? child parents g = g.map fun e =>
      if Ref.declaration e.1 ∈ parents then (e.1, e.2.addChild kind? child) else e := by
  induction parents generalizing g with
  | nil => simp [connect]
  | cons ref parents ih =>
    cases ref with
    | label name =>
      have hstep : connect kind? child (.label name :: parents) g =
          connect kind? child parents g := rfl
      simp [hstep, ih]
    | declaration a =>
      have hstep : connect kind? child (.declaration a :: parents) g =
          connect kind? child parents (g.modify (Links.addChild kind? child) a) := rfl
      rw [hstep, ih, Graph.modify, List.map_map]
      refine List.map_congr_left fun e _ => ?_
      by_cases ha : e.1 = a
      · by_cases hp : Ref.declaration e.1 ∈ parents
        · simp [← ha, hp, Links.addChild_addChild]
        · simp [← ha, hp]
      · simp [ha]

/-! ## The children after some entries -/

/-- The classes, or the interfaces, among some entries that name `a` as a parent. -/
def children (root : Declaration) (isClass : Bool) (done : Graph) (a : Address) : List Address :=
  (done.filter fun e => decide (root.kind? e.1 = some .classType) = isClass ∧
    Ref.declaration a ∈ e.2.parents).map Prod.fst

/-- An entry with the children it has among some entries. -/
def enter (root : Declaration) (done : Graph) (e : Address × Links) : Address × Links :=
  (e.1, { e.2 with
    childClasses := children root true done e.1
    childInterfaces := children root false done e.1 })

theorem children_sublist_keys (root : Declaration) (isClass : Bool) (done : Graph) (a : Address) :
    (children root isClass done a).Sublist (done.map Prod.fst) :=
  List.filter_sublist.map Prod.fst

theorem children_append_singleton (root : Declaration) (isClass : Bool) (done : Graph)
    (a child : Address) (l : Links) :
    children root isClass (done ++ [(child, l)]) a = children root isClass done a ++
      if decide (root.kind? child = some .classType) = isClass ∧ Ref.declaration a ∈ l.parents
      then [child] else [] := by
  rw [children, List.filter_append, List.map_append]
  congr 1
  split
  · rename_i h
    simp [h]
  · rename_i h
    simp [h]

/-- One more entry: the child goes behind the other children of each of its parents. -/
theorem connect_enter {child : Address} (hnew : child ∉ done.map Prod.fst) :
    connect (root.kind? child) child l.parents (g.map (enter root done)) =
      g.map (enter root (done ++ [(child, l)])) := by
  rw [connect_eq_map, List.map_map]
  refine List.map_congr_left fun e _ => ?_
  have hfree : ∀ isClass, child ∉ children root isClass done e.1 := fun isClass hmem =>
    hnew ((children_sublist_keys root isClass done e.1).subset hmem)
  by_cases hp : Ref.declaration e.1 ∈ l.parents
  · by_cases hk : root.kind? child = some .classType <;>
      simp [enter, children_append_singleton, hp, hk, Links.addChild, hfree]
  · simp [enter, children_append_singleton, hp]

theorem foldl_connect (root : Declaration) (g done rest : Graph)
    (h : ((done ++ rest).map Prod.fst).Nodup) :
    rest.foldl (fun known e => connect (root.kind? e.1) e.1 e.2.parents known)
      (g.map (enter root done)) = g.map (enter root (done ++ rest)) := by
  induction rest generalizing done with
  | nil => rw [List.append_nil, List.foldl_nil]
  | cons e rest ih =>
    have hnew : e.1 ∉ done.map Prod.fst := fun hmem => by
      rw [List.map_append] at h
      exact List.disjoint_of_nodup_append h hmem (List.mem_cons_self ..)
    rw [List.append_cons] at h
    rw [List.foldl_cons, connect_enter hnew, ih _ h, ← List.append_cons]

/-- The second pass enters every declaration with all its parents. -/
theorem downward_eq_map (hkeys : (g.map Prod.fst).Nodup)
    (hfree : ∀ e ∈ g, e.2.childClasses = [] ∧ e.2.childInterfaces = []) :
    downward root g = g.map (enter root g) := by
  have hstart : g.map (enter root []) = g := by
    refine (List.map_congr_left fun e he => ?_).trans (List.map_id g)
    obtain ⟨hc, hi⟩ := hfree e he
    obtain ⟨a, l⟩ := e
    cases l
    simp_all [enter, children]
  have hfold := foldl_connect root g [] g hkeys
  rw [hstart] at hfold
  exact hfold

/-! ## Both ends of a link -/

theorem links?_map_enter (root : Declaration) (done g : Graph) (a : Address) :
    Graph.links? (g.map (enter root done)) a =
      (g.links? a).map fun l => (enter root done (a, l)).2 :=
  lookup_map_snd (fun a l => (enter root done (a, l)).2) g a

/-- Entering children leaves the parents as they are. -/
theorem parentsOf_map_enter (root : Declaration) (done g : Graph) (a : Address) :
    Graph.parentsOf (g.map (enter root done)) a = g.parentsOf a := by
  rw [Graph.parentsOf, Graph.parentsOf, links?_map_enter]
  cases g.links? a <;> rfl

theorem mem_parentsOf {ref : Ref} : ref ∈ g.parentsOf b ↔ ∃ l, g.links? b = some l ∧
    ref ∈ l.parents := by
  rw [Graph.parentsOf]
  cases g.links? b <;> simp

theorem mem_children (hkeys : (g.map Prod.fst).Nodup) :
    b ∈ children root isClass g a ↔
      decide (root.kind? b = some .classType) = isClass ∧ Ref.declaration a ∈ g.parentsOf b := by
  rw [children, List.mem_map, mem_parentsOf]
  constructor
  · rintro ⟨⟨b, l⟩, he, rfl⟩
    obtain ⟨hmem, hcond⟩ := List.mem_filter.mp he
    obtain ⟨hk, hp⟩ := of_decide_eq_true hcond
    exact ⟨hk, l, (lookup_eq_some_iff_mem hkeys).mpr hmem, hp⟩
  · rintro ⟨hk, l, hl, hp⟩
    have hmem := (lookup_eq_some_iff_mem hkeys).mp hl
    exact ⟨(b, l), List.mem_filter.mpr ⟨hmem, decide_eq_true ⟨hk, hp⟩⟩, rfl⟩

/-- A graph that has the classes and interfaces of a tree, and tells the same from both ends of
every link. -/
structure LinkedBothWays (root : Declaration) (g : Graph) : Prop where
  /-- The entries are the classes and interfaces of the tree, each once. -/
  nodup_keys : (g.map Prod.fst).Nodup
  mem_keys : ∀ a, a ∈ g.map Prod.fst ↔
    root.kind? a = some .classType ∨ root.kind? a = some .interfaceType
  /-- The child classes are the classes that name the declaration as a parent. -/
  mem_childClasses : ∀ a l, g.links? a = some l → ∀ b, b ∈ l.childClasses ↔
    root.kind? b = some .classType ∧ Ref.declaration a ∈ g.parentsOf b
  /-- The child interfaces are the interfaces that name the declaration as a parent. -/
  mem_childInterfaces : ∀ a l, g.links? a = some l → ∀ b, b ∈ l.childInterfaces ↔
    root.kind? b = some .interfaceType ∧ Ref.declaration a ∈ g.parentsOf b
  /-- Children are listed once, in the order of the walk. -/
  nodup_children : ∀ a l, g.links? a = some l → l.childClasses.Nodup ∧ l.childInterfaces.Nodup
  sublist_walk : ∀ a l, g.links? a = some l →
    l.childClasses.Sublist root.walk ∧ l.childInterfaces.Sublist root.walk

/-- The addresses that the graph of a tree has entries for. -/
theorem mem_keys_upward_walk : a ∈ (upward root types root.walk).value.map Prod.fst ↔
    root.kind? a = some .classType ∨ root.kind? a = some .interfaceType := by
  rw [keys_upward, List.mem_filter, mem_walk, Declaration.kind?]
  cases hd : root.get? a with
  | none => simp
  | some d =>
    simp only [Option.isSome_some, true_and, Option.map_some, Option.any_some, Option.some.injEq]
    cases d.kind <;> decide

/-- A graph whose children were entered as the parents tell is linked both ways. -/
theorem linkedBothWays_map_enter (hkeys : (g.map Prod.fst).Nodup)
    (hmem : ∀ a, a ∈ g.map Prod.fst ↔
      root.kind? a = some .classType ∨ root.kind? a = some .interfaceType)
    (hwalk : (g.map Prod.fst).Sublist root.walk) :
    LinkedBothWays root (g.map (enter root g)) := by
  have hfst : (g.map (enter root g)).map Prod.fst = g.map Prod.fst := by
    rw [List.map_map]
    rfl
  have hlinks : ∀ a l, Graph.links? (g.map (enter root g)) a = some l →
      l.childClasses = children root true g a ∧ l.childInterfaces = children root false g a := by
    intro a l hl
    rw [links?_map_enter] at hl
    obtain ⟨l', _, rfl⟩ := Option.map_eq_some_iff.mp hl
    exact ⟨rfl, rfl⟩
  have hsub : ∀ isClass a, (children root isClass g a).Sublist root.walk := fun isClass a =>
    (children_sublist_keys root isClass g a).trans hwalk
  refine ⟨hfst ▸ hkeys, hfst ▸ hmem, ?_, ?_, ?_, ?_⟩
  · intro a l hl b
    rw [(hlinks a l hl).1, mem_children hkeys, parentsOf_map_enter, decide_eq_true_iff]
  · intro a l hl b
    rw [(hlinks a l hl).2, mem_children hkeys, parentsOf_map_enter, decide_eq_false_iff_not]
    -- what names a parent has an entry, so what is no class is an interface
    refine and_congr_left fun hp => ?_
    obtain ⟨l', hl', _⟩ := mem_parentsOf.mp hp
    have hkind := (hmem b).mp (List.mem_map_of_mem ((lookup_eq_some_iff_mem hkeys).mp hl'))
    rcases hkind with hk | hk <;> simp [hk]
  · intro a l hl
    rw [(hlinks a l hl).1, (hlinks a l hl).2]
    exact ⟨(nodup_walk root).sublist (hsub true a), (nodup_walk root).sublist (hsub false a)⟩
  · intro a l hl
    rw [(hlinks a l hl).1, (hlinks a l hl).2]
    exact ⟨hsub true a, hsub false a⟩

/-- Whatever the clauses name, the graph of a tree is linked both ways. -/
theorem graphOf_linkedBothWays (root : Declaration) (types : TypeMap) :
    LinkedBothWays root (graphOf root types).value := by
  have hkeys := keys_upward root types root.walk
  have hnodup : ((upward root types root.walk).value.map Prod.fst).Nodup := by
    rw [hkeys]
    exact (nodup_walk root).filter _
  have hgraph : (graphOf root types).value =
      (upward root types root.walk).value.map (enter root (upward root types root.walk).value) :=
    downward_eq_map hnodup fun _ he => childless_upward he
  rw [hgraph]
  refine linkedBothWays_map_enter hnodup (fun a => mem_keys_upward_walk) ?_
  rw [hkeys]
  exact List.filter_sublist

end ApiReference.Inheritance
