import ApiReference.Proofs.Declaration.Lineage
import ApiReference.Proofs.Page.Sheets

/-!
# Where declarations are documented

A declaration is documented when it has a page, or when it is a method or property of
a type that has one (`Documented`).  The page that a link to it names is then among
the pages of the package, and so is its anchor there (`HasPlace`).  Other
declarations, such as the members of an enumeration, are given a location as well,
but nothing stands there.
-/

namespace ApiReference.Page

open Declaration Doc

variable {env : Env} {root : Declaration} {r : Router} {a b t : Address} {i : Info}
variable {ss : List Sheet}

/-- The declarations that have pages: the one at the root, and all that are listed on the page of a
package or namespace. -/
inductive HasPage (root : Declaration) : Address → Prop
  | home : HasPage root []
  | listed {a b : Address} : HasPage root a → (root.kind? a).any isContainer = true →
      b ∈ root.exportsAt a → (root.kind? b).any listedKinds.contains = true → HasPage root b

/-- The declarations that a link can lead to: those with pages, and the methods and properties of
types that have one. -/
inductive Documented (root : Declaration) : Address → Prop
  | page {a : Address} : HasPage root a → Documented root a
  | member {a b : Address} : HasPage root a → (root.kind? a).any Kind.isInheriting = true →
      b ∈ root.membersAt a → (root.info? b).any (fun i => (anchorOf? i).isSome) = true →
      Documented root b

theorem anchorOf?_of_listed (h : listedKinds.contains i.kind = true) : anchorOf? i = none := by
  have hkinds : ∀ kind ∈ listedKinds, kind.isMethod = false ∧ kind.isProperty = false := by
    decide
  obtain ⟨hmethod, hproperty⟩ := hkinds _ (List.contains_iff_mem.mp h)
  exact Env.anchorOf?_eq_none hmethod hproperty

theorem not_member_of_isRoot {kind : Declaration.Kind} (h : kind.isRoot = true) :
    kind.isMethod = false ∧ kind.isProperty = false := by
  cases kind <;> first | exact ⟨rfl, rfl⟩ | cases h

/-- A page is not a place on another page. -/
theorem HasPage.anchorless (h : HasPage root a) (hroot : root.kind = .package) :
    (root.lineage a).filterMap anchorOf? = [] := by
  have hroots : ∀ i : Info, i.kind.isRoot = true → anchorOf? i = none := by
    intro i hi
    obtain ⟨hmethod, hproperty⟩ := not_member_of_isRoot hi
    exact Env.anchorOf?_eq_none hmethod hproperty
  induction h with
  | home =>
    rw [lineage, List.filterMap_cons_none (hroots _ (by rw [hroot]; rfl)), List.filterMap_nil]
  | listed _ _ hb hkind ih =>
    obtain ⟨m, between, hm, hentry, hlineage⟩ := lineage_of_mem_exportsAt hb
    have hlisted : listedKinds.contains m.kind = true := by
      rwa [kind?_of_get? hm] at hkind
    have hbetween : between.filterMap anchorOf? = [] :=
      List.filterMap_eq_nil_iff.mpr fun i hi => hroots i (by rw [hentry i hi]; rfl)
    rw [hlineage, List.filterMap_append, List.filterMap_append, ih, hbetween,
      List.filterMap_cons_none (anchorOf?_of_listed hlisted), List.filterMap_nil]
    rfl

/-- A method or property is on the page of its type, under its anchor. -/
theorem locate_member {id : Text} (r : Router) (hlineage : root.lineage b = root.lineage a ++ [i])
    (hid : anchorOf? i = some id) :
    r.locate root b = ⟨(r.locate root a).path, some id⟩ := by
  have hpath : isPathKind i.kind = false := by
    by_contra hpath
    simp only [isPathKind, Bool.not_eq_false, Bool.and_eq_true, Bool.not_eq_true'] at hpath
    rw [Env.anchorOf?_eq_none hpath.1.2 hpath.2] at hid
    cases hid
  have hlast : [i].filterMap anchorOf? = [id] := by
    rw [List.filterMap_cons_some hid, List.filterMap_nil]
  have hpieces : [i].filter (fun i => isPathKind i.kind) = [] := by
    rw [List.filter_singleton, hpath]
    rfl
  simp only [Router.locate, Router.locationOf, stemOf, hlineage, List.filterMap_append, hlast,
    List.filter_append, hpieces, List.append_nil, List.getLast?_concat]

/-- The pages of a package hold all that has a page. -/
theorem exists_sheet_of_hasPage (hss : env.Pages ss) (hhome : ∃ s ∈ ss, s.item = [])
    (h : HasPage env.root a) : ∃ s ∈ ss, s.item = a := by
  induction h with
  | home => exact hhome
  | listed _ hcontainer hb hkind ih =>
    obtain ⟨s, hs, rfl⟩ := ih
    exact hss.closed s hs hcontainer _ hb hkind

/-- The page that a declaration is located on is among some pages, with its anchor if it has one. -/
def HasPlace (env : Env) (ss : List Sheet) (t : Address) : Prop :=
  ∃ s ∈ ss, s.path = (env.router.locate env.root t).path ∧
    ∀ id, (env.router.locate env.root t).anchor? = some id → Node.anchor id ∈ s.nodes

/-- The place of a documented declaration is there. -/
theorem hasPlace_of_documented (hss : env.Pages ss) (hhome : ∃ s ∈ ss, s.item = [])
    (hroot : env.root.kind = .package) (h : Documented env.root t) : HasPlace env ss t := by
  cases h with
  | page h =>
    obtain ⟨s, hs, rfl⟩ := exists_sheet_of_hasPage hss hhome h
    refine ⟨s, hs, (hss.fits s hs).path_eq, fun id hid => ?_⟩
    rw [Router.locate, Router.locationOf, h.anchorless hroot] at hid
    cases hid
  | @member a _ h hkind hb hi =>
    obtain ⟨s, hs, rfl⟩ := exists_sheet_of_hasPage hss hhome h
    obtain ⟨m, hm, hlineage⟩ := lineage_of_mem_membersAt hb
    have hinfo : env.root.info? t = some m.toInfo := info?_of_get? hm
    rw [hinfo] at hi
    obtain ⟨id, hid⟩ := Option.isSome_iff_exists.mp hi
    have hfits := hss.fits s hs
    rw [HasPlace, locate_member env.router hlineage hid]
    refine ⟨s, hs, hfits.path_eq, fun id' hid' => ?_⟩
    obtain rfl := Option.some.inj hid'
    exact hfits.marked hkind t hb _ hinfo _ hid

end ApiReference.Page
