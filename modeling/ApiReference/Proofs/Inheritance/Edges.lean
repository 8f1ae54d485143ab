import ApiReference.Proofs.Inheritance.Declared
import ApiReference.Proofs.Scope.Clauses

/-!
# Clauses become links

The parents that the graph has for a class or interface are what its clauses name
(`links?_graphOf`), and each parent that is declared has it as a child.  So a class whose
clause is the full name of a type extends this type, with or without type arguments
(`extends_linked`).  It does not if the name starts with a dollar sign: identifiers may,
but such names are not looked up (`extends_dollar_unlinked`).
-/

namespace ApiReference.Inheritance

open Declaration Scope

variable {root d : Declaration} {types : TypeMap} {a b : Address} {i : Info} {ids : List Text}
variable {arguments : Text}

/-- The first pass has for each class and interface what its clauses name. -/
theorem mem_upward {as : List Address} (ha : a ∈ as) (hd : root.get? a = some d)
    (hkind : d.kind.isInheriting = true) :
    (a, (upwardLinks root types a d.toInfo).value) ∈ (upward root types as).value := by
  induction as with
  | nil => exact absurd ha List.not_mem_nil
  | cons b as ih =>
    rcases List.mem_cons.mp ha with rfl | ha
    · simp only [upward, hd, hkind, if_true, Noted.value_bind, Noted.value_pure]
      exact List.mem_cons_self ..
    · unfold upward
      split
      · exact ih ha
      · split
        · exact List.mem_cons_of_mem _ (ih ha)
        · exact ih ha

/-- The links of a class or interface are what its clauses name, and the children that name it. -/
theorem links?_graphOf (hd : root.get? a = some d) (hkind : d.kind.isInheriting = true) :
    (graphOf root types).value.links? a = some (enter root (upward root types root.walk).value
      (a, (upwardLinks root types a d.toInfo).value)).2 := by
  have hkeys : ((upward root types root.walk).value.map Prod.fst).Nodup := by
    rw [keys_upward]
    exact (nodup_walk root).filter _
  have hwalk : a ∈ root.walk := mem_walk.mpr (by rw [hd]; rfl)
  rw [value_graphOf, links?_map_enter, Graph.links?,
    (lookup_eq_some_iff_mem hkeys).mpr (mem_upward hwalk hd hkind)]
  rfl

/-- The first clause of a class names its parent class. -/
theorem parentClass?_upwardLinks {clause : Text} {ref : Ref} (hclass : i.kind = .classType)
    (hclause : i.extendsTypes.head? = some clause)
    (href : (baseType root types a clause).value = some ref) :
    (upwardLinks root types a i).value.parentClass? = some ref := by
  obtain ⟨clauses, hclauses⟩ := List.head?_eq_some_iff.mp hclause
  unfold upwardLinks
  rw [if_pos hclass, hclauses, List.take_succ_cons, List.take_zero]
  simp only [baseTypes, Noted.value_bind, Noted.value_pure, href]
  rfl

/-- In a package whose types have some map, let a class extend what has the full name of a class or
interface that the map holds, and let no nearer scope declare the name. Then the class has this type
as its parent class and the type has it as a child, with or without type arguments in the clause;
but if the name starts with a dollar sign, the parent class is just a label. -/
theorem extends_linked (hroot : root.kind = .package) (hd : (root.kind? b).any Kind.isInheriting)
    (hname : root.scopedName b = Text.join "." ids) (hne : ids ≠ [])
    (hids : ∀ id ∈ ids, isTypeIdentifier id = true)
    (hlookup : types.lookup (root.scopedName b) = some b)
    (hfirst : ∀ nearer ∈ (candidates root a (root.scopedName b)).takeWhile
      (· != root.scopedName b), types.lookup nearer = none)
    (hclass : root.info? a = some i) (hkind : i.kind = .classType)
    (hclause : i.extendsTypes.head? = some (root.scopedName b ++ arguments))
    (harguments : Arguments arguments) :
    ∃ l l', (graphOf root types).value.links? a = some l ∧
      (graphOf root types).value.links? b = some l' ∧
      if (root.scopedName b).head? = some '$' then
        l.parentClass? = some (.label (root.scopedName b))
      else l.parentClass? = some (.declaration b) ∧ a ∈ l'.childClasses := by
  obtain ⟨c, hc, rfl⟩ := Option.map_eq_some_iff.mp hclass
  obtain ⟨kind, hb, hbkind⟩ := (Option.any_eq_true _ _).mp hd
  obtain ⟨e, he, rfl⟩ := Option.map_eq_some_iff.mp hb
  have hla : (graphOf root types).value.links? a = _ := links?_graphOf hc (by rw [hkind]; rfl)
  have hlb : (graphOf root types).value.links? b = _ := links?_graphOf he hbkind
  refine ⟨_, _, hla, hlb, ?_⟩
  rw [hname] at hlookup hfirst hclause
  have hparent := parentClass?_upwardLinks hkind hclause
    (value_baseType_join hroot hids hne hfirst hlookup harguments)
  rw [hname]
  split
  · rename_i hdollar
    rw [if_pos hdollar] at hparent
    exact hparent
  · rename_i hdollar
    rw [if_neg hdollar] at hparent
    refine ⟨hparent, ?_⟩
    have hlinked := graphOf_linkedBothWays root types
    refine (hlinked.mem_childClasses b _ hlb a).mpr ⟨?_, ?_⟩
    · rw [kind?_of_get? hc, hkind]
    · refine mem_parentsOf.mpr ⟨_, hla, List.mem_append_left _ ?_⟩
      exact Option.mem_toList.mpr hparent

/-- A package with a class in a namespace that has type arguments where it is extended. -/
def shelter : Declaration :=
  ⟨.plain .package "shelter", [⟨.plain .entryPoint [], [
    ⟨.plain .nameSpace "Zoo", [⟨.plain .classType "$Cage", []⟩]⟩,
    ⟨{ Info.plain .classType "Box" with extendsTypes := ["Zoo.$Cage <T>"] }, []⟩]⟩]⟩

theorem extends_linked_in_shelter :
    shelter.kind = .package ∧ (shelter.kind? [0, 0, 0]).any Kind.isInheriting ∧
    shelter.scopedName [0, 0, 0] = Text.join "." ["Zoo", "$Cage"] ∧
    (∀ id ∈ [['Z', 'o', 'o'], ['$', 'C', 'a', 'g', 'e']], isTypeIdentifier id = true) ∧
    (TypeMap.of shelter).value.lookup (shelter.scopedName [0, 0, 0]) = some [0, 0, 0] ∧
    (∀ nearer ∈ (candidates shelter [0, 1] (shelter.scopedName [0, 0, 0])).takeWhile
      (· != shelter.scopedName [0, 0, 0]), (TypeMap.of shelter).value.lookup nearer = none) ∧
    (shelter.info? [0, 1]).map Info.extendsTypes =
      some [shelter.scopedName [0, 0, 0] ++ [' ', '<', 'T', '>']] ∧
    Arguments [' ', '<', 'T', '>'] ∧
    ∃ l l', (graphOf shelter (TypeMap.of shelter).value).value.links? [0, 1] = some l ∧
      (graphOf shelter (TypeMap.of shelter).value).value.links? [0, 0, 0] = some l' ∧
      if (shelter.scopedName [0, 0, 0]).head? = some '$' then
        l.parentClass? = some (.label (shelter.scopedName [0, 0, 0]))
      else l.parentClass? = some (.declaration [0, 0, 0]) ∧ [0, 1] ∈ l'.childClasses := by
  have hlookup : (TypeMap.of shelter).value.lookup (shelter.scopedName [0, 0, 0]) =
      some [0, 0, 0] := by
    decide +kernel
  have hfirst : ∀ nearer ∈ (candidates shelter [0, 1] (shelter.scopedName [0, 0, 0])).takeWhile
      (· != shelter.scopedName [0, 0, 0]), (TypeMap.of shelter).value.lookup nearer = none := by
    decide +kernel
  have harguments : Arguments [' ', '<', 'T', '>'] :=
    @Arguments.bracketed [' '] ['T'] rfl
  refine ⟨rfl, rfl, rfl, by decide, hlookup, hfirst, rfl, harguments, ?_⟩
  exact extends_linked rfl rfl rfl (by decide) (by decide) hlookup hfirst
    (i := (shelter.members[0].members[1]).toInfo) rfl rfl rfl harguments

/-- A package with a class whose name starts with a dollar sign, and a class that extends it. -/
def stall : Declaration :=
  ⟨.plain .package "stall", [⟨.plain .entryPoint [], [
    ⟨.plain .classType "$Animal", []⟩,
    ⟨{ Info.plain .classType "Horse" with extendsTypes := ["$Animal"] }, []⟩]⟩]⟩

/-- The full name is an identifier, the type map holds it, no nearer scope declares it, and yet the
class that extends it is not linked to it. -/
theorem extends_dollar_unlinked :
    stall.scopedName [0, 0] = Text.join "." ["$Animal"] ∧ isTypeIdentifier "$Animal" = true ∧
    (TypeMap.of stall).value.lookup "$Animal".toList = some [0, 0] ∧
    candidates stall [0, 1] "$Animal" = ["Horse.$Animal".toList, "$Animal"] ∧
    (TypeMap.of stall).value.lookup "Horse.$Animal".toList = none ∧
    ((stall.info? [0, 1]).map Info.extendsTypes) = some ["$Animal".toList] ∧
    (graphOf stall (TypeMap.of stall).value).value =
      [([0, 0], ⟨none, [], [], []⟩), ([0, 1], ⟨some (.label "$Animal"), [], [], []⟩)] := by
  decide +kernel

end ApiReference.Inheritance
