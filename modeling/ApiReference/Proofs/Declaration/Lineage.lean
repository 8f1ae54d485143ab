import ApiReference.Proofs.Scope.Declared

/-!
# The way to a declaration

The containers of a member are those of what it is a member of, and that itself
(`lineage_concat`).  So the names that make up a full name grow by one with every
member (`scopedNames`), and an entry point on the way adds nothing to them.
-/

namespace ApiReference.Declaration

variable {root d m : Declaration} {a b : Address} {n : Nat}

/-- The containers of a member are those of what it is a member of, and that itself. -/
theorem lineage_concat (hd : root.get? a = some d) (hm : d.members[n]? = some m) :
    root.lineage (a ++ [n]) = root.lineage a ++ [m.toInfo] := by
  induction a generalizing root with
  | nil =>
    obtain rfl := Option.some.inj hd
    simp [lineage, hm]
  | cons k a ih =>
    obtain ⟨i, ms⟩ := root
    rw [get?_cons] at hd
    obtain ⟨inner, hinner, hd⟩ := Option.bind_eq_some_iff.mp hd
    simp [lineage, hinner, ih hd]

theorem lineage_of_mem_memberAddresses (hd : root.get? a = some d)
    (hb : b ∈ memberAddresses a d) :
    ∃ m, root.get? b = some m ∧ root.lineage b = root.lineage a ++ [m.toInfo] := by
  obtain ⟨n, m, rfl, hm, hget⟩ := (mem_memberAddresses_iff hd).mp hb
  exact ⟨m, hget, lineage_concat hd hm⟩

theorem lineage_of_mem_membersAt (hb : b ∈ root.membersAt a) :
    ∃ m, root.get? b = some m ∧ root.lineage b = root.lineage a ++ [m.toInfo] := by
  unfold membersAt at hb
  split at hb
  · rename_i d hd
    exact lineage_of_mem_memberAddresses hd hb
  · exact absurd hb List.not_mem_nil

/-- An export is a member of its container, or a member of the first entry point in it. -/
theorem mem_exportsAt_cases (hb : b ∈ root.exportsAt a) : ∃ d, root.get? a = some d ∧
    ((entryPoint? d.members = none ∧ b ∈ memberAddresses a d) ∨
      ∃ n e, d.members[n]? = some e ∧ e.kind = .entryPoint ∧ root.get? (a ++ [n]) = some e ∧
        b ∈ memberAddresses (a ++ [n]) e) := by
  obtain ⟨d, hd⟩ : ∃ d, root.get? a = some d := by
    unfold exportsAt at hb
    split at hb
    · rename_i d hd
      exact ⟨d, hd⟩
    · exact absurd hb List.not_mem_nil
  refine ⟨d, hd, ?_⟩
  cases hentry : entryPoint? d.members with
  | none =>
    rw [exportsAt_of_none hd hentry] at hb
    exact .inl ⟨rfl, hb⟩
  | some n =>
    obtain ⟨hn, hkind, _⟩ := List.findIdx?_eq_some_iff_getElem.mp hentry
    have he : d.members[n]? = some d.members[n] := List.getElem?_eq_getElem hn
    rw [exportsAt_of_some hd hentry he] at hb
    exact .inr ⟨n, _, he, beq_iff_eq.mp hkind, (get?_concat hd n).trans he, hb⟩

/-- An export is inside its container. -/
theorem prefix_of_mem_exportsAt (hb : b ∈ root.exportsAt a) : a <+: b ∧ a ≠ b := by
  obtain ⟨d, hd, ⟨_, hb⟩ | ⟨n, e, _, _, hget, hb⟩⟩ := mem_exportsAt_cases hb
  · obtain ⟨k, _, rfl, _⟩ := (mem_memberAddresses_iff hd).mp hb
    exact ⟨List.prefix_append a [k], by simp⟩
  · obtain ⟨k, _, rfl, _⟩ := (mem_memberAddresses_iff hget).mp hb
    rw [List.append_assoc]
    exact ⟨List.prefix_append a _, by simp⟩

/-- Between an export and its container there is at most an entry point. -/
theorem lineage_of_mem_exportsAt (hb : b ∈ root.exportsAt a) :
    ∃ m between, root.get? b = some m ∧ (∀ i ∈ between, i.kind = .entryPoint) ∧
      root.lineage b = root.lineage a ++ between ++ [m.toInfo] := by
  obtain ⟨d, hd, ⟨_, hb⟩ | ⟨n, e, he, hkind, hget, hb⟩⟩ := mem_exportsAt_cases hb
  · obtain ⟨m, hm, hlineage⟩ := lineage_of_mem_memberAddresses hd hb
    exact ⟨m, [], hm, List.forall_mem_nil _, by rw [hlineage, List.append_nil]⟩
  · obtain ⟨m, hm, hlineage⟩ := lineage_of_mem_memberAddresses hget hb
    refine ⟨m, [e.toInfo], hm, List.forall_mem_singleton.mpr hkind, ?_⟩
    rw [hlineage, lineage_concat hd he]

/-! ## Full names -/

/-- The names that the full name of a declaration is joined from, outermost first. -/
def scopedNames (root : Declaration) (a : Address) : List Text :=
  ((root.lineage a).filter fun i => !i.kind.isRoot).map Info.name

theorem scopedName_eq_join (root : Declaration) (a : Address) :
    root.scopedName a = Text.join "." (root.scopedNames a) := rfl

theorem nameAt_of_get? (hm : root.get? a = some m) : root.nameAt a = m.name := by
  rw [nameAt, hm]

/-- A package with no other package or model in it, and with entry points directly below the root
only. -/
structure PackageTree (root : Declaration) : Prop where
  kind_eq : root.kind = .package
  inner : ∀ a ∈ root.walk, a ≠ [] → root.kind? a ≠ some .package ∧ root.kind? a ≠ some .model
  length_entryPoint : ∀ a ∈ root.walk, root.kind? a = some .entryPoint → a.length = 1

instance PackageTree.decidable (root : Declaration) : Decidable (PackageTree root) :=
  decidable_of_iff (root.kind = .package ∧
    (∀ a ∈ root.walk, a ≠ [] → root.kind? a ≠ some .package ∧ root.kind? a ≠ some .model) ∧
    ∀ a ∈ root.walk, root.kind? a = some .entryPoint → a.length = 1)
    ⟨fun ⟨hkind, hinner, hentry⟩ => ⟨hkind, hinner, hentry⟩,
      fun h => ⟨h.kind_eq, h.inner, h.length_entryPoint⟩⟩

namespace PackageTree

/-- Whatever is exported has a name of its own. -/
theorem isRoot_of_mem_exportsAt (h : PackageTree root) (hb : b ∈ root.exportsAt a)
    (hm : root.get? b = some m) : m.kind.isRoot = false := by
  have hwalk := mem_walk_of_mem_exportsAt hb
  have hkind : root.kind? b = some m.kind := kind?_of_get? hm
  have hentry : b ≠ [] ∧ m.kind ≠ .entryPoint := by
    obtain ⟨d, hd, ⟨hnone, hb⟩ | ⟨n, e, _, _, hget, hb⟩⟩ := mem_exportsAt_cases hb
    · obtain ⟨k, m', rfl, hmember, hget⟩ := (mem_memberAddresses_iff hd).mp hb
      obtain rfl := Option.some.inj (hm.symm.trans hget)
      refine ⟨by simp, fun hkind => ?_⟩
      have hall := List.findIdx?_eq_none_iff.mp hnone
      exact absurd hkind (by simpa using hall m (List.mem_of_getElem? hmember))
    · obtain ⟨k, m', rfl, _, hget'⟩ := (mem_memberAddresses_iff hget).mp hb
      refine ⟨by simp, fun hentry => ?_⟩
      have hlength := h.length_entryPoint _ hwalk (hkind.trans (congrArg some hentry))
      simp at hlength
  obtain ⟨hpackage, hmodel⟩ := h.inner b hwalk hentry.1
  rw [hkind] at hpackage hmodel
  cases hk : m.kind <;> simp_all [Kind.isRoot]

/-- An export adds its name to the full name of its container. -/
theorem scopedNames_of_mem_exportsAt (h : PackageTree root) (hb : b ∈ root.exportsAt a) :
    root.scopedNames b = root.scopedNames a ++ [root.nameAt b] := by
  obtain ⟨m, between, hm, hentry, hlineage⟩ := lineage_of_mem_exportsAt hb
  have hkind := h.isRoot_of_mem_exportsAt hb hm
  have hbetween : between.filter (fun i => !i.kind.isRoot) = [] :=
    List.filter_eq_nil_iff.mpr fun i hi => by simp [hentry i hi, Kind.isRoot]
  rw [scopedNames, hlineage, List.filter_append, List.filter_append, hbetween, List.append_nil,
    List.map_append, nameAt_of_get? hm]
  simp [scopedNames, hkind]

end PackageTree

end ApiReference.Declaration
