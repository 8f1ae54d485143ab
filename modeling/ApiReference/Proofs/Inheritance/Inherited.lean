import ApiReference.Proofs.Inheritance.Distance
import ApiReference.Proofs.Inheritance.Table

/-!
# Inherited members

The members that a type inherits under a name are those of all its strict
ancestors, each once, those of nearer ancestors first and those of one ancestor in
the order of their declaration (`InheritedChain`).  What the walk meets is settled
by `Distance`, and the grouping by `Table`; here the two are put together.
-/

namespace ApiReference.Inheritance

open Declaration Scope

variable {root : Declaration} {g : Graph} {a b m : Address} {name : Text}

/-! ## Members of one declaration -/

theorem mem_memberAddresses {d : Declaration} (h : m ∈ memberAddresses b d) : m.dropLast = b := by
  obtain ⟨i, _, rfl⟩ := List.mem_map.mp h
  exact List.dropLast_concat

/-- The address of a member tells what it is a member of. -/
theorem dropLast_of_mem_membersAt (h : m ∈ root.membersAt b) : m.dropLast = b := by
  unfold membersAt at h
  split at h
  · exact mem_memberAddresses h
  · exact absurd h List.not_mem_nil

theorem nodup_membersAt (root : Declaration) (b : Address) : (root.membersAt b).Nodup := by
  unfold membersAt
  split
  · refine List.Nodup.map (fun i j hij => ?_) List.nodup_range
    exact List.singleton_injective (List.append_cancel_left hij)
  · exact List.nodup_nil

/-- The members of a declaration that have a name, in the order of their declaration. -/
def membersNamed (root : Declaration) (name : Text) (b : Address) : List Address :=
  named root (root.membersAt b) name

theorem mem_membersNamed :
    m ∈ membersNamed root name b ↔ m ∈ root.membersAt b ∧ root.nameAt m = name := by
  simp [membersNamed, named]

/-! ## Chains -/

/-- What a type inherits under a name. -/
structure InheritedChain (root : Declaration) (g : Graph) (a : Address) (name : Text)
    (chain : List Address) : Prop where
  /-- No member occurs twice. -/
  nodup : chain.Nodup
  /-- The members are those with the name in all strict ancestors. -/
  mem_iff : ∀ m, m ∈ chain ↔ ∃ b, StrictAncestor g a b ∧ m ∈ membersNamed root name b
  /-- Members of a nearer ancestor come before those of one further away. -/
  by_distance : chain.Pairwise fun m m' => ∃ b b' i j, m ∈ root.membersAt b ∧
    m' ∈ root.membersAt b' ∧ IsDistance g a b i ∧ IsDistance g a b' j ∧ i ≤ j
  /-- The members of one ancestor stand together as they are declared. -/
  in_order : ∀ b, StrictAncestor g a b → membersNamed root name b <:+: chain

/-- Members of different declarations are different. -/
theorem disjoint_membersNamed {b' : Address} (h : b ≠ b') :
    (membersNamed root name b).Disjoint (membersNamed root name b') := by
  intro m hm hm'
  have hb := dropLast_of_mem_membersAt (mem_membersNamed.mp hm).1
  have hb' := dropLast_of_mem_membersAt (mem_membersNamed.mp hm').1
  exact h (hb.symm.trans hb')

/-- The members of the ancestors, one ancestor after the other, are such a chain. -/
theorem inheritedChain_ancestors (root : Declaration) (g : Graph) (a : Address) (name : Text) :
    InheritedChain root g a name ((ancestors g a).flatMap (membersNamed root name)) where
  nodup := by
    refine List.nodup_flatMap.mpr ⟨fun b _ => (nodup_membersAt root b).filter _, ?_⟩
    exact (nodup_ancestors g a).imp disjoint_membersNamed
  mem_iff m := by simp only [List.mem_flatMap, mem_ancestors_iff]
  by_distance := by
    have hdist : ∀ b ∈ ancestors g a, ∃ i, IsDistance g a b i := fun b hb => by
      obtain ⟨i, _, hi⟩ := strictAncestor_iff.mp (mem_ancestors_iff.mp hb)
      exact ⟨i, hi⟩
    refine List.pairwise_flatMap.mpr ⟨fun b hb => ?_, (pairwise_ancestors g a).imp_of_mem ?_⟩
    · obtain ⟨i, hi⟩ := hdist b hb
      refine List.pairwise_of_forall_mem_list fun m hm m' hm' => ?_
      exact ⟨b, b, i, i, (mem_membersNamed.mp hm).1, (mem_membersNamed.mp hm').1, hi, hi, le_rfl⟩
    · intro b b' hb hb' hle m hm m' hm'
      obtain ⟨i, hi⟩ := hdist b hb
      obtain ⟨j, hj⟩ := hdist b' hb'
      exact ⟨b, b', i, j, (mem_membersNamed.mp hm).1, (mem_membersNamed.mp hm').1, hi, hj,
        hle i j hi hj⟩
  in_order b hb := by
    obtain ⟨before, after, hsplit⟩ := List.append_of_mem (mem_ancestors_iff.mpr hb)
    rw [hsplit, List.flatMap_append, List.flatMap_cons, ← List.append_assoc]
    exact ⟨_, _, rfl⟩

theorem named_flatMap_membersAt (root : Declaration) (as : List Address) (name : Text) :
    named root (as.flatMap root.membersAt) name = as.flatMap (membersNamed root name) := by
  simp only [named, List.filter_flatMap]
  rfl

/-- The inherited members are the table of the chains. -/
theorem tabulates_inherited (root : Declaration) (g : Graph) (a : Address) :
    Tabulates (fun name => (ancestors g a).flatMap (membersNamed root name))
      (inherited root g a) := by
  rw [← funext (named_flatMap_membersAt root (ancestors g a))]
  exact tabulates_groupByName root _

/-- In every graph, however its links run, each name is entered once, with the chain of all that is
inherited under it, and only if there is something. -/
theorem inherited_chains (root : Declaration) (g : Graph) (a : Address) :
    ((inherited root g a).map Prod.fst).Nodup ∧
    ∀ name, InheritedChain root g a name (((inherited root g a).lookup name).getD []) ∧
      (((inherited root g a).lookup name).isSome ↔
        ∃ b, StrictAncestor g a b ∧ ∃ m ∈ root.membersAt b, root.nameAt m = name) := by
  have h := tabulates_inherited root g a
  refine ⟨h.nodup_keys, fun name => ⟨?_, ?_⟩⟩
  · rw [h.getD_lookup]
    exact inheritedChain_ancestors root g a name
  · have hchain := inheritedChain_ancestors root g a name
    rw [h.isSome_lookup]
    constructor
    · intro hne
      obtain ⟨m, hm⟩ := List.exists_mem_of_ne_nil _ hne
      obtain ⟨b, hb, hm⟩ := (hchain.mem_iff m).mp hm
      exact ⟨b, hb, m, mem_membersNamed.mp hm⟩
    · rintro ⟨b, hb, m, hm⟩
      exact List.ne_nil_of_mem ((hchain.mem_iff m).mpr ⟨b, hb, mem_membersNamed.mpr hm⟩)

end ApiReference.Inheritance
