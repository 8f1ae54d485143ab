import ApiReference.Proofs.Inheritance.Hierarchy
import Mathlib.Data.List.Chain
import Mathlib.Data.List.Count
import Mathlib.Data.List.Nodup
import Mathlib.Logic.Relation

/-!
# The ways through a hierarchy tree

A tree of what is reached in one direction shows every way that starts at its root,
follows the links of that direction and comes to no declaration twice.  It shows each
as often as the links can be taken: a link that is listed twice doubles the ways over it
(`Graph.ways`).  So the ways of a tree are told without the walk that builds it
(`count_paths_childTreeFrom`), and a way that comes back somewhere can be cut short, by
which the tree shows all that can be reached (`mem_items_childTree_iff`).
-/

namespace ApiReference.Inheritance

open Declaration Scope

variable {g : Graph} {l : Links} {direction : Direction} {a b : Address} {name : Text} {n : Nat}
variable {ref s u : Ref} {p q : List Ref} {t : Tree} {ts : List Tree} {seen : List Address}

/-! ## Ways of a graph -/

namespace Graph

/-- The types listed below a type in one direction. There are none below a label. -/
def below (g : Graph) (direction : Direction) : Ref → List Ref
  | .declaration a => match g.links? a with
    | some l => l.follow direction
    | none => []
  | .label _ => []

/-- How often a way can be taken: each of its steps as often as it is listed. -/
def ways (g : Graph) (direction : Direction) : List Ref → Nat
  | ref :: s :: p => (g.below direction ref).count s * g.ways direction (s :: p)
  | _ => 1

/-- One step in a direction. -/
def Leads (g : Graph) (direction : Direction) (ref s : Ref) : Prop := s ∈ g.below direction ref

theorem ways_singleton : g.ways direction [ref] = 1 := rfl

theorem ways_cons_cons : g.ways direction (ref :: s :: p) =
    (g.below direction ref).count s * g.ways direction (s :: p) := rfl

/-- A way that can be taken goes from each type to one listed below it. -/
theorem ways_pos_iff : 0 < g.ways direction p ↔ p.IsChain (g.Leads direction) := by
  induction p with
  | nil => exact iff_of_true Nat.one_pos .nil
  | cons ref p ih =>
    cases p with
    | nil => exact iff_of_true Nat.one_pos (.singleton _)
    | cons s p =>
      rw [ways_cons_cons, List.isChain_cons_cons, ← ih, Leads, ← List.count_pos_iff]
      simp only [Nat.pos_iff_ne_zero, Nat.mul_ne_zero_iff]

/-- Only declarations of the graph lead anywhere. -/
theorem exists_of_leads (h : g.Leads direction ref s) :
    ∃ a ∈ g.map Prod.fst, ref = .declaration a := by
  cases ref with
  | label name => exact absurd h List.not_mem_nil
  | declaration a =>
    cases hl : g.links? a with
    | none =>
      rw [Leads, below, hl] at h
      exact absurd h List.not_mem_nil
    | some l =>
      exact ⟨a, List.mem_map_of_mem (f := Prod.fst) (mem_of_lookup hl), rfl⟩

end Graph

/-! ## Ways that do not come back -/

/-- The declarations of a way are all different, and none of them was seen before. -/
def Avoids (seen : List Address) (p : List Ref) : Prop :=
  (p.filterMap Ref.address?).Nodup ∧ ∀ a ∈ p.filterMap Ref.address?, a ∉ seen

instance (seen : List Address) (p : List Ref) : Decidable (Avoids seen p) :=
  inferInstanceAs (Decidable (_ ∧ _))

namespace Avoids

theorem nil_iff : Avoids [] p ↔ (p.filterMap Ref.address?).Nodup :=
  and_iff_left fun _ _ => List.not_mem_nil

theorem declaration_cons_iff :
    Avoids seen (.declaration a :: p) ↔ a ∉ seen ∧ Avoids (a :: seen) p := by
  have hcons : (Ref.declaration a :: p).filterMap Ref.address? =
      a :: p.filterMap Ref.address? := rfl
  unfold Avoids
  rw [hcons, List.nodup_cons, List.forall_mem_cons]
  simp only [List.mem_cons, not_or]
  constructor
  · rintro ⟨⟨ha, hnodup⟩, haseen, hunseen⟩
    exact ⟨haseen, hnodup, fun b hb => ⟨fun hba => ha (hba ▸ hb), hunseen b hb⟩⟩
  · rintro ⟨haseen, hnodup, hunseen⟩
    exact ⟨⟨fun ha => (hunseen a ha).1 rfl, hnodup⟩, haseen, fun b hb => (hunseen b hb).2⟩

theorem isNew_of_cons (h : Avoids seen (ref :: p)) : isNew seen ref = true := by
  cases ref with
  | label name => rfl
  | declaration a => simpa [isNew] using (declaration_cons_iff.mp h).1

theorem singleton (h : isNew seen ref = true) : Avoids seen [ref] := by
  cases ref with
  | label name => exact ⟨List.nodup_nil, List.forall_mem_nil _⟩
  | declaration a =>
    refine declaration_cons_iff.mpr ⟨?_, List.nodup_nil, List.forall_mem_nil _⟩
    simpa [isNew] using h

/-- A way can go on to every type that it has not come to. -/
theorem append (h : Avoids [] p) (hs : s ∉ p) : Avoids [] (p ++ [s]) := by
  rw [nil_iff, List.filterMap_append] at *
  cases s with
  | label name => exact (List.append_nil _).symm ▸ h
  | declaration a =>
    refine List.nodup_append.mpr ⟨h, List.nodup_singleton a, ?_⟩
    intro b hb c hc hbc
    obtain ⟨u, hu, hub⟩ := List.mem_filterMap.mp hb
    obtain rfl := List.mem_singleton.mp hc
    cases u with
    | label name => cases hub
    | declaration d => cases hub; exact hs (hbc ▸ hu)

end Avoids

/-! ## Ways of a tree -/

namespace Tree

mutual

/-- The ways from the root of a tree to its nodes, as the types they pass. -/
def paths : Tree → List (List Ref)
  | node item children => [item] :: (pathsAll children).map (item :: ·)

def pathsAll : List Tree → List (List Ref)
  | [] => []
  | t :: ts => paths t ++ pathsAll ts

end

mutual

/-- A tree and all trees below its root. -/
def subtrees : Tree → List Tree
  | node item children => node item children :: subtreesAll children

def subtreesAll : List Tree → List Tree
  | [] => []
  | t :: ts => subtrees t ++ subtreesAll ts

end

theorem mem_pathsAll : p ∈ pathsAll ts ↔ ∃ t ∈ ts, p ∈ t.paths := by
  induction ts with
  | nil => simp [pathsAll]
  | cons t ts ih => simp [pathsAll, ih]

theorem mem_subtreesAll : t ∈ subtreesAll ts ↔ ∃ t' ∈ ts, t ∈ t'.subtrees := by
  induction ts with
  | nil => simp [subtreesAll]
  | cons t' ts ih => simp [subtreesAll, ih]

theorem nil_not_mem_paths (t : Tree) : [] ∉ t.paths := by
  cases t with
  | node item children => simp [paths]

theorem nil_not_mem_pathsAll (ts : List Tree) : [] ∉ pathsAll ts := by
  rw [mem_pathsAll]
  rintro ⟨t, -, h⟩
  exact nil_not_mem_paths t h

theorem paths_leaf (item : Ref) : (leaf item).paths = [[item]] := rfl

/-- A way through a tree is its root, and behind it a way through one of the trees below. -/
theorem count_paths_node (item : Ref) (ts : List Tree) (p : List Ref) :
    (node item ts).paths.count (item :: p) =
      if p = [] then 1 else (pathsAll ts).count p := by
  have hinjective : Function.Injective (item :: ·) := List.cons_injective
  rw [paths, List.count_cons, List.count_map_of_injective _ _ hinjective]
  by_cases hp : p = []
  · rw [if_pos hp, hp, List.count_eq_zero.mpr (nil_not_mem_pathsAll ts)]
    simp
  · rw [if_neg hp, if_neg (by simpa using Ne.symm hp), Nat.add_zero]

theorem head?_of_mem_paths (h : p ∈ t.paths) : p.head? = some t.item := by
  cases t with
  | node item children =>
    rw [paths, List.mem_cons] at h
    obtain rfl | h := h
    · rfl
    · obtain ⟨q, -, rfl⟩ := List.mem_map.mp h
      rfl

theorem count_paths_of_ne (h : p.head? ≠ some t.item) : t.paths.count p = 0 :=
  List.count_eq_zero.mpr fun hmem => h (head?_of_mem_paths hmem)

/-- If a way occurs equally often in all trees that start like it, it occurs in all of them together
that often for each of these. -/
theorem count_pathsAll (h : ∀ t ∈ ts, t.item = s → t.paths.count (s :: p) = n) :
    (pathsAll ts).count (s :: p) = (ts.map item).count s * n := by
  induction ts with
  | nil => exact (Nat.zero_mul n).symm
  | cons t ts ih =>
    obtain ⟨ht, hts⟩ := List.forall_mem_cons.mp h
    rw [pathsAll, List.count_append, ih hts, List.map_cons, List.count_cons, Nat.add_mul,
      Nat.add_comm]
    congr 1
    by_cases hs : t.item = s
    · rw [ht hs, if_pos (beq_iff_eq.mpr hs), Nat.one_mul]
    · have hne : (s :: p).head? ≠ some t.item := fun h => hs (Option.some.inj h).symm
      rw [count_paths_of_ne hne, if_neg (by simpa using hs), Nat.zero_mul]

mutual

/-- The types of a tree are those that its ways lead to. -/
theorem items_eq : (t : Tree) → t.items = t.paths.filterMap List.getLast?
  | node item children => by
    have hlast : ∀ p ∈ pathsAll children, (item :: p).getLast? = p.getLast? := by
      intro p hp
      cases p with
      | nil => exact absurd hp (nil_not_mem_pathsAll children)
      | cons s p => rw [List.getLast?_cons_cons]
    rw [items, paths, List.filterMap_cons, itemsAll_eq, List.filterMap_map]
    exact congrArg (item :: ·) (List.filterMap_congr hlast).symm

theorem itemsAll_eq : (ts : List Tree) → itemsAll ts = (pathsAll ts).filterMap List.getLast?
  | [] => rfl
  | t :: ts => by rw [itemsAll, pathsAll, List.filterMap_append, items_eq t, itemsAll_eq ts]

end

theorem mem_items_iff : s ∈ t.items ↔ ∃ p ∈ t.paths, p.getLast? = some s := by
  rw [items_eq, List.mem_filterMap]

end Tree

open ApiReference.Inheritance.Tree

theorem isNew_nil : isNew [] ref = true := by
  cases ref <;> rfl

theorem item_childTreeFrom : (childTreeFrom g direction seen ref).item = ref := by
  fun_cases childTreeFrom g direction seen ref with
  | _ => rfl

/-- Where nothing is below a type, its tree is a leaf. -/
theorem count_paths_leaf (hnew : isNew seen ref = true) (hnone : g.below direction ref = [])
    (p : List Ref) : (leaf ref).paths.count p =
      if p.head? = some ref ∧ Avoids seen p then g.ways direction p else 0 := by
  rw [paths_leaf, List.count_singleton]
  match p with
  | [] => rfl
  | [s] =>
    by_cases hs : s = ref
    · subst hs
      simp [Avoids.singleton hnew, Graph.ways_singleton]
    · simp [hs, Ne.symm hs]
  | s :: u :: p =>
    by_cases hs : s = ref
    · subst hs
      simp [Graph.ways_cons_cons, hnone]
    · simp [hs]

/-- A way goes on below a type as often as its next type is listed there. -/
theorem count_pathsAll_childTreeFrom {refs : List Ref}
    (h : ∀ child, isNew seen child = true → ∀ p,
      (childTreeFrom g direction seen child).paths.count p =
        if p.head? = some child ∧ Avoids seen p then g.ways direction p else 0)
    (s : Ref) (p : List Ref) :
    (pathsAll ((refs.filter (isNew seen)).map (childTreeFrom g direction seen))).count (s :: p) =
      if Avoids seen (s :: p) then refs.count s * g.ways direction (s :: p) else 0 := by
  have hitems : ((refs.filter (isNew seen)).map (childTreeFrom g direction seen)).map item =
      refs.filter (isNew seen) := by
    rw [List.map_map]
    exact (List.map_congr_left fun child _ => item_childTreeFrom).trans (List.map_id _)
  have hcount : ∀ t ∈ (refs.filter (isNew seen)).map (childTreeFrom g direction seen),
      t.item = s → t.paths.count (s :: p) =
        if Avoids seen (s :: p) then g.ways direction (s :: p) else 0 := by
    intro t ht hs
    obtain ⟨child, hchild, rfl⟩ := List.mem_map.mp ht
    rw [item_childTreeFrom] at hs
    subst hs
    rw [h child (List.mem_filter.mp hchild).2]
    simp
  rw [count_pathsAll hcount, hitems]
  split
  · rename_i havoids
    rw [List.count_filter havoids.isNew_of_cons]
  · exact Nat.mul_zero _

/-- The tree below a type has the ways that start with it, follow the links and come to no
declaration twice or to one that was seen. -/
theorem count_paths_childTreeFrom (hnew : isNew seen ref = true) (p : List Ref) :
    (childTreeFrom g direction seen ref).paths.count p =
      if p.head? = some ref ∧ Avoids seen p then g.ways direction p else 0 := by
  fun_induction childTreeFrom g direction seen ref generalizing p with
  | case1 seen name => exact count_paths_leaf hnew rfl p
  | case2 seen a ha => simp [isNew, ha] at hnew
  | case3 seen a ha hl => exact count_paths_leaf hnew (by rw [Graph.below, hl]) p
  | case4 seen a ha l hl ih =>
    by_cases hhead : p.head? = some (.declaration a)
    · obtain ⟨rest, rfl⟩ := List.head?_eq_some_iff.mp hhead
      rw [count_paths_node]
      cases rest with
      | nil => rw [if_pos rfl, if_pos ⟨rfl, .singleton hnew⟩, Graph.ways_singleton]
      | cons s p =>
        have hbelow : g.below direction (.declaration a) = l.follow direction := by
          rw [Graph.below, hl]
        have hiff : (Ref.declaration a :: s :: p).head? = some (.declaration a) ∧
            Avoids seen (.declaration a :: s :: p) ↔ Avoids (a :: seen) (s :: p) :=
          (and_iff_right rfl).trans (Avoids.declaration_cons_iff.trans (and_iff_right ha))
        rw [if_neg (List.cons_ne_nil s p), count_pathsAll_childTreeFrom ih,
          if_congr hiff rfl rfl, Graph.ways_cons_cons, hbelow]
    · rw [count_paths_of_ne hhead, if_neg fun h => hhead h.1]

/-! ## All that is reached -/

/-- The ways of a tree are those that start at its type, follow the links and come to no declaration
twice. -/
theorem mem_paths_childTree_iff : p ∈ (childTree g direction ref).paths ↔
    p.head? = some ref ∧ Avoids [] p ∧ p.IsChain (g.Leads direction) := by
  rw [childTree, ← List.count_pos_iff, count_paths_childTreeFrom isNew_nil,
    ← Graph.ways_pos_iff, ← and_assoc]
  split
  · rename_i h
    exact (and_iff_right h).symm
  · rename_i h
    exact iff_of_false (Nat.lt_irrefl 0) fun hp => h hp.1

theorem exists_leads_of_mem_dropLast (h : p.IsChain (g.Leads direction)) (hs : s ∈ p.dropLast) :
    ∃ u, g.Leads direction s u := by
  induction p with
  | nil => exact absurd hs List.not_mem_nil
  | cons ref p ih =>
    cases p with
    | nil => exact absurd hs List.not_mem_nil
    | cons u p =>
      obtain ⟨hstep, hrest⟩ := List.isChain_cons_cons.mp h
      rcases List.mem_cons.mp hs with rfl | hs
      · exact ⟨u, hstep⟩
      · exact ih hrest hs

/-- All types of a way but the last lead on, and so are declarations of the graph. -/
theorem length_le_of_mem_paths (h : p ∈ (childTree g direction ref).paths) :
    p.length ≤ g.length + 1 := by
  obtain ⟨-, ⟨hnodup, -⟩, hchain⟩ := mem_paths_childTree_iff.mp h
  have hkeys : ∀ s ∈ p.dropLast, ∃ a ∈ g.map Prod.fst, s = .declaration a := by
    intro s hs
    obtain ⟨u, hu⟩ := exists_leads_of_mem_dropLast hchain hs
    exact Graph.exists_of_leads hu
  have hlength : (p.dropLast.filterMap Ref.address?).length = p.dropLast.length := by
    rw [List.filterMap_length_eq_length]
    intro s hs
    obtain ⟨a, -, rfl⟩ := hkeys s hs
    rfl
  have hsubset : p.dropLast.filterMap Ref.address? ⊆ g.map Prod.fst := by
    intro a ha
    obtain ⟨s, hs, hsa⟩ := List.mem_filterMap.mp ha
    obtain ⟨b, hb, rfl⟩ := hkeys s hs
    exact Option.some.inj hsa ▸ hb
  have hle := (List.subperm_of_subset
    (hnodup.sublist ((List.dropLast_sublist p).filterMap Ref.address?)) hsubset).length_le
  rw [hlength, List.length_dropLast, List.length_map] at hle
  omega

/-- A way can be ended earlier. -/
theorem mem_paths_of_prefix (h : p ∈ (childTree g direction ref).paths) (hq : q <+: p)
    (hne : q ≠ []) : q ∈ (childTree g direction ref).paths := by
  obtain ⟨hhead, ⟨hnodup, -⟩, hchain⟩ := mem_paths_childTree_iff.mp h
  refine mem_paths_childTree_iff.mpr ⟨?_, Avoids.nil_iff.mpr ?_, hchain.prefix hq⟩
  · obtain ⟨rest, rfl⟩ := hq
    rwa [List.head?_append_of_ne_nil _ hne] at hhead
  · exact hnodup.sublist (hq.sublist.filterMap Ref.address?)

/-- What follows the end of a way is shown: where the way cannot go on, it has been there before. -/
theorem exists_path_of_leads (h : p ∈ (childTree g direction ref).paths)
    (hu : p.getLast? = some u) (hs : g.Leads direction u s) :
    ∃ q ∈ (childTree g direction ref).paths, q.getLast? = some s := by
  obtain ⟨hhead, hp, hchain⟩ := mem_paths_childTree_iff.mp h
  by_cases hmem : s ∈ p
  · obtain ⟨before, after, rfl⟩ := List.append_of_mem hmem
    exact ⟨before ++ [s], mem_paths_of_prefix h ⟨after, by simp⟩ (by simp), List.getLast?_concat⟩
  · refine ⟨p ++ [s], mem_paths_childTree_iff.mpr ⟨?_, hp.append hmem, ?_⟩, List.getLast?_concat⟩
    · rw [List.head?_append, hhead]
      rfl
    · refine List.isChain_append.mpr ⟨hchain, .singleton s, ?_⟩
      rintro x hx y ⟨⟩
      obtain rfl : u = x := Option.some.inj (hu.symm.trans hx)
      exact hs

/-- A tree shows what can be reached, and nothing else. -/
theorem mem_items_childTree_iff : s ∈ (childTree g direction ref).items ↔
    Relation.ReflTransGen (g.Leads direction) ref s := by
  rw [mem_items_iff]
  constructor
  · rintro ⟨p, hp, hlast⟩
    obtain ⟨hhead, -, hchain⟩ := mem_paths_childTree_iff.mp hp
    obtain ⟨rest, rfl⟩ := List.head?_eq_some_iff.mp hhead
    exact List.relationReflTransGen_of_exists_isChain_cons rest hchain
      (List.getLast_of_getLast?_eq_some hlast)
  · intro h
    induction h with
    | refl =>
      exact ⟨[ref], mem_paths_childTree_iff.mpr ⟨rfl, .singleton isNew_nil, .singleton ref⟩, rfl⟩
    | tail _ hstep ih =>
      obtain ⟨p, hp, hlast⟩ := ih
      exact exists_path_of_leads hp hlast hstep

/-- Labels are leaves. -/
theorem children_of_label (h : t ∈ (childTreeFrom g direction seen ref).subtrees)
    (hname : t.item = .label name) : t.children = [] := by
  have hleaf : ∀ ref, t ∈ (leaf ref).subtrees → t.children = [] := by
    intro ref h
    rw [List.mem_singleton.mp h]
    rfl
  fun_induction childTreeFrom g direction seen ref with
  | case1 seen name' => exact hleaf _ h
  | case2 seen a ha => exact hleaf _ h
  | case3 seen a ha hl => exact hleaf _ h
  | case4 seen a ha l hl ih =>
    rw [subtrees, List.mem_cons, mem_subtreesAll] at h
    rcases h with rfl | ⟨t', ht', h⟩
    · cases hname
    · obtain ⟨child, -, rfl⟩ := List.mem_map.mp ht'
      exact ih child h

/-- A type is shown at the root of its tree only. -/
theorem count_items_childTree : (childTree g direction ref).items.count ref = 1 := by
  cases ref with
  | label name =>
    rw [childTree, childTreeFrom]
    exact List.count_singleton_self
  | declaration a => exact occurrences_childTree

/-- The tree of what is reached from a type in one direction shows exactly the ways that start
there, follow the links and come to no declaration twice, each as often as it can be taken; none is
longer than the graph has types. Labels are leaves, all that can be reached is shown, and the type
itself at the root only. -/
theorem childTree_ways (g : Graph) (direction : Direction) (ref : Ref) :
    (∀ p, (childTree g direction ref).paths.count p =
      if p.head? = some ref ∧ (p.filterMap Ref.address?).Nodup then g.ways direction p else 0) ∧
    (∀ p ∈ (childTree g direction ref).paths, p.length ≤ g.length + 1) ∧
    (∀ t ∈ (childTree g direction ref).subtrees, ∀ name, t.item = .label name → t.children = []) ∧
    (∀ s, s ∈ (childTree g direction ref).items ↔
      Relation.ReflTransGen (g.Leads direction) ref s) ∧
    (childTree g direction ref).items.count ref = 1 := by
  refine ⟨fun p => ?_, fun p => length_le_of_mem_paths, fun t ht name => children_of_label ht,
    fun s => mem_items_childTree_iff, count_items_childTree⟩
  rw [childTree, count_paths_childTreeFrom isNew_nil]
  exact if_congr (and_congr_right fun _ => Avoids.nil_iff) rfl rfl

end ApiReference.Inheritance
