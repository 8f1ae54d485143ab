import ApiReference.Proofs.Declaration.Lineage
import Mathlib.Data.List.Nodup
import Mathlib.Data.List.Perm.Basic
import Mathlib.Logic.Relation

/-!
# Trees with members in another order

Whether members stand in one order or another, the declarations of a tree are the same and
have the same containers: `lineages` of the two trees are permutations of each other
(`Reordered.perm_lineages`).  So every declaration has a counterpart, and what is read off
the containers is the same for both.
-/

namespace ApiReference.Declaration

variable {root root' d m : Declaration} {a b : Address} {n : Nat}

/-! ## All at once -/

theorem perm_flatten_zipLevels {α : Type} (xs ys : List (List α)) :
    (zipLevels xs ys).flatten.Perm (xs.flatten ++ ys.flatten) := by
  induction xs, ys using zipLevels.induct with
  | case1 ys => rw [zipLevels, List.flatten_nil, List.nil_append]
  | case2 xs hxs => rw [zipLevels.eq_2 _ hxs, List.flatten_nil, List.append_nil]
  | case3 x xs y ys ih =>
    rw [zipLevels, List.flatten_cons, List.flatten_cons, List.flatten_cons, List.append_assoc,
      List.append_assoc]
    refine List.Perm.append_left x ?_
    exact (ih.append_left y).trans (List.perm_append_comm_assoc ..)

mutual

theorem perm_flatten_levelsFrom (a : Address) :
    (d : Declaration) → (levelsFrom a d).flatten.Perm (walkFrom a d)
  | ⟨_, ms⟩ => by
    rw [levelsFrom, walkFrom, List.flatten_cons]
    exact (perm_flatten_levelsMembers a 0 ms).cons a

theorem perm_flatten_levelsMembers (a : Address) (k : Nat) :
    (ms : List Declaration) → (levelsMembers a k ms).flatten.Perm (walkMembers a k ms)
  | [] => List.Perm.nil
  | m :: ms => by
    rw [levelsMembers, walkMembers]
    exact (perm_flatten_zipLevels _ _).trans
      ((perm_flatten_levelsFrom _ m).append (perm_flatten_levelsMembers a (k + 1) ms))

end

/-- Level by level the same declarations are met as on the walk. -/
theorem perm_breadthFirst (root : Declaration) : root.breadthFirst.Perm root.walk :=
  perm_flatten_levelsFrom [] root

mutual

/-- For every declaration of a tree its containers and itself, outermost first. -/
def lineages : Declaration → List (List Info)
  | ⟨i, ms⟩ => [i] :: (lineagesOfMembers ms).map (i :: ·)

def lineagesOfMembers : List Declaration → List (List Info)
  | [] => []
  | m :: ms => lineages m ++ lineagesOfMembers ms

end

theorem lineagesOfMembers_eq_flatMap (ms : List Declaration) :
    lineagesOfMembers ms = ms.flatMap lineages := by
  induction ms with
  | nil => rfl
  | cons m ms ih => rw [lineagesOfMembers, ih, List.flatMap_cons]

mutual

/-- What has behind `a` the containers in `outer` and then those of the declaration maps the walk to
these. -/
theorem map_walkFrom {a : Address} {f : Address → List Info} {outer : List Info} :
    (d : Declaration) → (∀ c, f (a ++ c) = outer ++ d.lineage c) →
      (walkFrom a d).map f = (lineages d).map (outer ++ ·)
  | ⟨i, ms⟩, hf => by
    have hself : f a = outer ++ [i] := by
      have h := hf []
      rwa [List.append_nil] at h
    have hmembers : (walkMembers a 0 ms).map f =
        (lineagesOfMembers ms).map ((outer ++ [i]) ++ ·) := by
      refine map_walkMembers ms fun n m c hm => ?_
      rw [Nat.zero_add, hf, lineage, hm, List.append_assoc]
      rfl
    rw [walkFrom, lineages, List.map_cons, List.map_cons, List.map_map, hself, hmembers]
    congr 1
    exact List.map_congr_left fun l _ => List.append_assoc ..

theorem map_walkMembers {a : Address} {f : Address → List Info} {outer : List Info} {k : Nat} :
    (ms : List Declaration) →
      (∀ n m c, ms[n]? = some m → f (a ++ (k + n) :: c) = outer ++ m.lineage c) →
      (walkMembers a k ms).map f = (lineagesOfMembers ms).map (outer ++ ·)
  | [], _ => rfl
  | m :: ms, hf => by
    rw [walkMembers, lineagesOfMembers, List.map_append, List.map_append]
    congr 1
    · refine map_walkFrom m fun c => ?_
      rw [List.append_assoc]
      exact hf 0 m c rfl
    · refine map_walkMembers ms fun n m' c hm => ?_
      rw [Nat.add_assoc, Nat.add_comm 1]
      exact hf (n + 1) m' c hm

end

theorem map_lineage_walk (root : Declaration) : root.walk.map root.lineage = lineages root := by
  rw [walk, map_walkFrom root fun c => by rw [List.nil_append, List.nil_append]]
  exact List.map_id _

/-! ## Members in another order -/

/-- The members of one container are put into another order, at the root or anywhere inside. -/
inductive Reorders : Declaration → Declaration → Prop
  | here (i : Info) {ms ms' : List Declaration} : ms.Perm ms' → Reorders ⟨i, ms⟩ ⟨i, ms'⟩
  | inside (i : Info) (before after : List Declaration) {m m' : Declaration} : Reorders m m' →
      Reorders ⟨i, before ++ m :: after⟩ ⟨i, before ++ m' :: after⟩

/-- Two trees that differ in the order of members only. -/
abbrev Reordered : Declaration → Declaration → Prop := Relation.ReflTransGen Reorders

theorem Reorders.perm_lineages (h : Reorders root root') :
    (lineages root).Perm (lineages root') := by
  induction h with
  | here i h =>
    rw [lineages, lineages, lineagesOfMembers_eq_flatMap, lineagesOfMembers_eq_flatMap]
    exact ((h.flatMap_right lineages).map _).cons _
  | inside i before after _ ih =>
    rw [lineages, lineages, lineagesOfMembers_eq_flatMap, lineagesOfMembers_eq_flatMap,
      List.flatMap_append, List.flatMap_append, List.flatMap_cons, List.flatMap_cons]
    exact (((ih.append_right _).append_left _).map _).cons _

/-- Every declaration stands as often below the same containers. -/
theorem Reordered.perm_lineages (h : Reordered root root') :
    (lineages root).Perm (lineages root') := by
  induction h with
  | refl => exact List.Perm.refl _
  | tail _ hstep ih => exact ih.trans hstep.perm_lineages

/-- Two declarations, each of its tree, that have the same containers and are the same apart from
their members. -/
structure Counterpart (root root' : Declaration) (a b : Address) : Prop where
  mem_left : a ∈ root.walk
  mem_right : b ∈ root'.walk
  lineage_eq : root'.lineage b = root.lineage a

theorem Counterpart.symm (h : Counterpart root root' a b) : Counterpart root' root b a :=
  ⟨h.mem_right, h.mem_left, h.lineage_eq.symm⟩

/-- Every declaration has a counterpart. -/
theorem exists_counterpart (h : (lineages root).Perm (lineages root')) (ha : a ∈ root.walk) :
    ∃ b, Counterpart root root' a b := by
  have hmem : root.lineage a ∈ lineages root := by
    rw [← map_lineage_walk]
    exact List.mem_map_of_mem ha
  rw [h.mem_iff, ← map_lineage_walk] at hmem
  obtain ⟨b, hb, hlineage⟩ := List.mem_map.mp hmem
  exact ⟨b, ha, hb, hlineage⟩

/-! ## What the containers tell -/

/-- The containers of a container are the first of the containers of what is in it. -/
theorem lineage_take (hd : root.get? a = some d) (n : Nat) :
    root.lineage (a.take n) = (root.lineage a).take (n + 1) := by
  induction a generalizing root n with
  | nil => rw [List.take_nil, lineage, List.take_succ_cons, List.take_nil]
  | cons k a ih =>
    obtain ⟨i, ms⟩ := root
    rw [get?_cons] at hd
    obtain ⟨inner, hinner, hd⟩ := Option.bind_eq_some_iff.mp hd
    cases n with
    | zero => rfl
    | succ n => simp only [List.take_succ_cons, lineage, hinner, ih hd]

theorem length_lineage (hd : root.get? a = some d) : (root.lineage a).length = a.length + 1 := by
  induction a generalizing root with
  | nil => rfl
  | cons k a ih =>
    obtain ⟨i, ms⟩ := root
    rw [get?_cons] at hd
    obtain ⟨inner, hinner, hd⟩ := Option.bind_eq_some_iff.mp hd
    simp only [lineage, hinner, List.length_cons, ih hd]

/-- The last of the containers of a declaration is the declaration itself. -/
theorem getLast?_lineage (hd : root.get? a = some d) :
    (root.lineage a).getLast? = some d.toInfo := by
  induction a generalizing root with
  | nil =>
    obtain rfl := Option.some.inj hd
    rfl
  | cons k a ih =>
    obtain ⟨i, ms⟩ := root
    rw [get?_cons] at hd
    obtain ⟨inner, hinner, hd⟩ := Option.bind_eq_some_iff.mp hd
    simp only [lineage, hinner, List.getLast?_cons, ih hd, Option.getD_some]

/-- The containers around a declaration, with what contains each of them. -/
theorem map_lineage_hierarchy (hd : root.get? a = some d) : (hierarchy a).map root.lineage =
    (List.range (root.lineage a).length).map fun n => (root.lineage a).take (n + 1) := by
  rw [hierarchy, List.map_map, length_lineage hd]
  exact List.map_congr_left fun n _ => lineage_take hd n

namespace Counterpart

variable (h : Counterpart root root' a b)
include h

theorem info?_eq : root'.info? b = root.info? a := by
  obtain ⟨d, hd⟩ := Option.isSome_iff_exists.mp (mem_walk.mp h.mem_left)
  obtain ⟨d', hd'⟩ := Option.isSome_iff_exists.mp (mem_walk.mp h.mem_right)
  rw [info?_of_get? hd, info?_of_get? hd', ← getLast?_lineage hd, ← getLast?_lineage hd',
    h.lineage_eq]

theorem kind?_eq : root'.kind? b = root.kind? a := by
  have hmap : ∀ (root : Declaration) (a : Address), root.kind? a = (root.info? a).map Info.kind :=
    fun root a => (Option.map_map ..).symm
  rw [hmap, hmap, h.info?_eq]

theorem scopedName_eq : root'.scopedName b = root.scopedName a := by
  rw [scopedName, scopedName, h.lineage_eq]

theorem map_lineage_hierarchy_eq :
    (hierarchy b).map root'.lineage = (hierarchy a).map root.lineage := by
  obtain ⟨d, hd⟩ := Option.isSome_iff_exists.mp (mem_walk.mp h.mem_left)
  obtain ⟨d', hd'⟩ := Option.isSome_iff_exists.mp (mem_walk.mp h.mem_right)
  rw [map_lineage_hierarchy hd, map_lineage_hierarchy hd', h.lineage_eq]

end Counterpart

/-! ## Types with one name -/

/-- A tree in which no two types have the same full name. -/
def UniqueTypes (root : Declaration) : Prop :=
  ∀ a b, (root.kind? a).any Kind.isType = true → (root.kind? b).any Kind.isType = true →
    root.scopedName a = root.scopedName b → a = b

/-- The full names of the types among declarations given by their containers. -/
def typeNames (ls : List (List Info)) : List Text :=
  (ls.filter fun l => l.getLast?.any fun i => i.kind.isType).map scopedNameOf

theorem getLast?_any_isType (ha : a ∈ root.walk) :
    ((root.lineage a).getLast?.any fun i => i.kind.isType) = (root.kind? a).any Kind.isType := by
  obtain ⟨d, hd⟩ := Option.isSome_iff_exists.mp (mem_walk.mp ha)
  rw [getLast?_lineage hd, kind?_of_get? hd]
  rfl

theorem uniqueTypes_iff : UniqueTypes root ↔ (typeNames (lineages root)).Nodup := by
  have hfilter : root.walk.filter ((fun l => l.getLast?.any fun i => i.kind.isType) ∘
      root.lineage) = root.walk.filter fun a => (root.kind? a).any Kind.isType :=
    List.filter_congr fun a ha => getLast?_any_isType ha
  have hmem : ∀ a, a ∈ root.walk.filter (fun a => (root.kind? a).any Kind.isType) ↔
      (root.kind? a).any Kind.isType = true := by
    intro a
    rw [List.mem_filter, and_iff_right_iff_imp]
    intro h
    obtain ⟨k, hk, _⟩ := (Option.any_eq_true _ _).mp h
    exact mem_walk_of_kind? hk
  rw [typeNames, ← map_lineage_walk, List.filter_map, List.map_map, hfilter,
    List.nodup_map_iff_inj_on ((nodup_walk root).filter _)]
  constructor
  · intro h a ha b hb hname
    exact h a b ((hmem a).mp ha) ((hmem b).mp hb) hname
  · intro h a b ha hb hname
    exact h a ((hmem a).mpr ha) b ((hmem b).mpr hb) hname

/-- Reordering makes no two types have one name. -/
theorem UniqueTypes.of_perm (h : (lineages root).Perm (lineages root'))
    (hunique : UniqueTypes root) : UniqueTypes root' := by
  rw [uniqueTypes_iff] at hunique ⊢
  exact (((h.filter _).map scopedNameOf).nodup_iff).mp hunique

end ApiReference.Declaration
