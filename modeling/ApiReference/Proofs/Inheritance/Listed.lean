import ApiReference.Proofs.Inheritance.Declared

/-!
# The members that are shown for a type

For each name a type lists all own declarations of that name, or else the first that
it inherits.  So what is shown of it is all own members and the heads of the chains of
the names that no own member has (`mem_shownMembers`), each once and in the order of
their names.
-/

namespace ApiReference.Inheritance

open Declaration

variable {root : Declaration} {g : Graph} {a m m' : Address} {r : Resolved} {name : Text}

/-- What a type inherits under a name, from its nearest ancestor first. -/
def chainOf (root : Declaration) (g : Graph) (a : Address) (name : Text) : List Address :=
  ((inherited root g a).lookup name).getD []

/-- The declarations listed for a name: the own ones, or else the first inherited one. -/
def Resolved.listed (r : Resolved) : List Address :=
  if r.own.isEmpty then r.parents.take 1 else r.own

/-- The declarations shown for a type, name by name. -/
def shownMembers (root : Declaration) (g : Graph) (a : Address) : List Address :=
  (resolvedMembers root g a).flatMap Resolved.listed

/-- The members that should be shown for a type: its own ones, and under each name that none of
these has, the first one that it inherits. -/
inductive IsShown (root : Declaration) (g : Graph) (a : Address) : Address → Prop
  | own {m : Address} : m ∈ root.membersAt a → IsShown root g a m
  | inherited {m : Address} {name : Text} : (∀ o ∈ root.membersAt a, root.nameAt o ≠ name) →
      (chainOf root g a name).head? = some m → IsShown root g a m

/-! ## Chains -/

theorem chainOf_eq (root : Declaration) (g : Graph) (a : Address) (name : Text) :
    chainOf root g a name = named root ((ancestors g a).flatMap root.membersAt) name :=
  (tabulates_groupByName root _).getD_lookup

/-- A type whose only parent has no parents has no other ancestors. -/
theorem ancestors_of_single (ha : g.parentsOf a = [.declaration m])
    (hm : g.parentsOf m = []) (hne : m ≠ a) : ancestors g a = [m] := by
  have hfound : newAncestors [a] [.declaration m] = [m] := by
    have hnew : ¬[a].contains m = true := by simpa using hne
    rw [newAncestors, if_neg hnew, newAncestors]
  have hrest : ancestorsFrom g [m, a] [] = [] := by
    rw [ancestorsFrom]
    rfl
  rw [ancestors, ha, ancestorsFrom, hfound, dif_neg (List.cons_ne_nil _ _),
    List.flatMap_singleton, hm]
  exact congrArg ([m] ++ ·) hrest

theorem nameAt_of_mem_chainOf (h : m ∈ chainOf root g a name) : root.nameAt m = name := by
  rw [chainOf_eq] at h
  exact of_decide_eq_true (List.mem_filter.mp h).2

/-- No type inherits its own members, whatever its graph is. -/
theorem not_mem_membersAt_of_mem_chainOf (h : m ∈ chainOf root g a name) :
    m ∉ root.membersAt a := by
  rw [chainOf_eq] at h
  obtain ⟨b, hb, hm⟩ := List.mem_flatMap.mp (List.mem_of_mem_filter h)
  intro hown
  have heq := (dropLast_of_mem_membersAt hm).symm.trans (dropLast_of_mem_membersAt hown)
  exact (mem_ancestors_iff.mp hb).1 heq

/-- An own member is none of those that it overrides. -/
theorem relation_ne_inherits (hm : m ∈ root.membersAt a) (h : m' ∈ chainOf root g a name) :
    relation root m m' ≠ .inherits := by
  have hne : m ≠ m' := fun heq => not_mem_membersAt_of_mem_chainOf h (heq ▸ hm)
  unfold relation
  rw [if_neg hne]
  split <;> exact nofun

theorem relation_self (root : Declaration) (m : Address) : relation root m m = .inherits :=
  if_pos rfl

/-! ## One name -/

/-- What is known of a member that is listed under a name. -/
theorem of_mem_listed (hr : r ∈ resolvedMembers root g a) (hm : m ∈ r.listed) :
    root.nameAt m = r.name ∧ r.parents = chainOf root g a (root.nameAt m) ∧
      (r.own.isEmpty = true ↔ m ∉ root.membersAt a) := by
  obtain ⟨hown, hparents⟩ := named_of_mem_resolvedMembers hr
  rw [← chainOf_eq] at hparents
  unfold Resolved.listed at hm
  split at hm
  · rename_i hempty
    have hchain : m ∈ chainOf root g a r.name := hparents ▸ List.mem_of_mem_take hm
    have hname := nameAt_of_mem_chainOf hchain
    exact ⟨hname, hname ▸ hparents,
      fun _ => not_mem_membersAt_of_mem_chainOf hchain, fun _ => hempty⟩
  · rename_i hsome
    rw [hown] at hm
    obtain ⟨hmember, hname⟩ := List.mem_filter.mp hm
    have hname := of_decide_eq_true hname
    exact ⟨hname, hname ▸ hparents, fun h => absurd h hsome, fun h => absurd hmember h⟩

theorem nodup_listed (hr : r ∈ resolvedMembers root g a) : r.listed.Nodup := by
  unfold Resolved.listed
  split
  · rw [List.take_one]
    cases r.parents.head? with
    | none => exact List.nodup_nil
    | some m => exact List.nodup_singleton m
  · rw [(named_of_mem_resolvedMembers hr).1]
    exact (nodup_membersAt root a).filter _

/-! ## All names -/

/-- The entries are in strict order of their names. -/
theorem pairwise_resolvedMembers (root : Declaration) (g : Graph) (a : Address) :
    (resolvedMembers root g a).Pairwise fun r r' => r.name < r'.name :=
  pairwise_joinByName (sortedByName_sortByName (tabulates_groupByName root _).nodup_keys)
    (sortedByName_sortByName (tabulates_groupByName root _).nodup_keys)

/-- The entry of a name that is inherited and that no own member has. -/
theorem exists_resolved_of_chainOf (hown : ∀ o ∈ root.membersAt a, root.nameAt o ≠ name)
    (hm : (chainOf root g a name).head? = some m) :
    ∃ r ∈ resolvedMembers root g a, r.listed = [m] := by
  have htable := (tabulates_groupByName root ((ancestors g a).flatMap root.membersAt)).perm
    (perm_sortByName _)
  have hkey : name ∈ (resolvedMembers root g a).map Resolved.name := by
    refine (mem_names_joinByName _ _).mpr (.inr (htable.mem_keys.mpr ?_))
    rw [← chainOf_eq]
    exact List.ne_nil_of_mem (List.mem_of_mem_head? hm)
  obtain ⟨r, hr, rfl⟩ := List.mem_map.mp hkey
  obtain ⟨hnamed, hparents⟩ := named_of_mem_resolvedMembers hr
  rw [← chainOf_eq] at hparents
  have hempty : r.own = [] := by
    rw [hnamed]
    exact List.filter_eq_nil_iff.mpr fun o ho => by simpa using hown o ho
  obtain ⟨rest, hchain⟩ := List.head?_eq_some_iff.mp hm
  refine ⟨r, hr, ?_⟩
  rw [Resolved.listed, hempty, hparents, hchain]
  rfl

/-- What is shown is what should be. -/
theorem mem_shownMembers : m ∈ shownMembers root g a ↔ IsShown root g a m := by
  constructor
  · intro h
    obtain ⟨r, hr, hm⟩ := List.mem_flatMap.mp h
    obtain ⟨hname, hparents, hown⟩ := of_mem_listed hr hm
    by_cases hmember : m ∈ root.membersAt a
    · exact .own hmember
    · have hempty := hown.mpr hmember
      rw [Resolved.listed, if_pos hempty, hparents, List.take_one, Option.mem_toList] at hm
      have hnone : ∀ o ∈ root.membersAt a, root.nameAt o ≠ root.nameAt m := by
        intro o ho heq
        have hnamed : o ∈ r.own := by
          rw [(named_of_mem_resolvedMembers hr).1]
          exact List.mem_filter.mpr ⟨ho, decide_eq_true (heq.trans hname)⟩
        rw [List.isEmpty_iff.mp hempty] at hnamed
        exact absurd hnamed List.not_mem_nil
      exact .inherited hnone hm
  · intro h
    cases h with
    | own hm =>
      obtain ⟨r, hr, hown⟩ := exists_resolved_of_mem_membersAt g hm
      refine List.mem_flatMap.mpr ⟨r, hr, ?_⟩
      rw [Resolved.listed, if_neg (by simpa using List.ne_nil_of_mem hown)]
      exact hown
    | inherited hown hm =>
      obtain ⟨r, hr, hlisted⟩ := exists_resolved_of_chainOf hown hm
      exact List.mem_flatMap.mpr ⟨r, hr, by rw [hlisted]; exact List.mem_singleton_self m⟩

/-- What is shown comes in the order of names. -/
theorem pairwise_shownMembers (root : Declaration) (g : Graph) (a : Address) :
    (shownMembers root g a).Pairwise fun m m' => root.nameAt m ≤ root.nameAt m' := by
  refine List.pairwise_flatMap.mpr ⟨fun r hr => ?_, ?_⟩
  · refine List.pairwise_of_forall_mem_list fun m hm m' hm' => ?_
    rw [(of_mem_listed hr hm).1, (of_mem_listed hr hm').1]
  · refine (pairwise_resolvedMembers root g a).imp_of_mem fun hr hr' hlt m hm m' hm' => ?_
    rw [(of_mem_listed hr hm).1, (of_mem_listed hr' hm').1]
    exact hlt.le

/-- Nothing is shown twice. -/
theorem nodup_shownMembers (root : Declaration) (g : Graph) (a : Address) :
    (shownMembers root g a).Nodup := by
  refine List.nodup_flatMap.mpr ⟨fun r hr => nodup_listed hr, ?_⟩
  refine (pairwise_resolvedMembers root g a).imp_of_mem fun hr hr' hlt m hm hm' => ?_
  exact hlt.ne ((of_mem_listed hr hm).1.symm.trans (of_mem_listed hr' hm').1)

end ApiReference.Inheritance
