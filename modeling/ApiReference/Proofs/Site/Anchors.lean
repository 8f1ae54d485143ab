import ApiReference.Proofs.Page.PageAnchors
import ApiReference.Proofs.Site.Pages

/-!
# The anchors on the pages of packages

Comments are read without anchors.  So in every package that was read, the anchors on the
page of a class or interface are those of its own members, and these are told apart by
them whatever their names are.
-/

namespace ApiReference.Site

open Declaration Doc ApiReference.Page

/-- Two members have the same anchor exactly if they agree in name, category, static modifier and
overload. So whatever package was read, the anchors on the page of a class or interface are all
different exactly if no two of its own members agree in all these. -/
theorem anchors_tell_members_apart :
    (∀ i j : Info, i.kind.isMethod = true ∨ i.kind.isProperty = true →
      j.kind.isMethod = true ∨ j.kind.isProperty = true →
      (anchorOf? i = anchorOf? j ↔ SameMember i j)) ∧
    ∀ config file text root, (packageOfText config file text).outcome = .ok root →
      ∀ (env : Env) ss, env.root = root → (env.sheets [] root).outcome = .ok ss →
        ∀ s ∈ ss, ∀ i, root.info? s.item = some i → i.kind.isInheriting = true →
          ((anchors s.nodes).Nodup ↔ Apart root SameMember (root.membersAt s.item)) := by
  constructor
  · intro i j hi hj
    exact anchorOf?_eq_iff hi hj
  · rintro config file text root hload env ss rfl hsheets s hs i hi hkind
    have hpage := (built_sheets env.root [] ss rfl hsheets).pageOf s hs
    exact hpage.nodup_anchors_iff (packageOfText_read hload).2 hi hkind

/-- The description of a package with a class whose members differ in one thing each. -/
def burrow : Text :=
  "\x7b\"kind\":\"Package\",\"name\":\"burrow\",\"members\":[" ++
  "\x7b\"kind\":\"EntryPoint\",\"members\":[" ++
  "\x7b\"kind\":\"Class\",\"name\":\"Fox\",\"members\":[" ++
  "\x7b\"kind\":\"Method\",\"name\":\"dig\"\x7d," ++
  "\x7b\"kind\":\"Method\",\"name\":\"dig\",\"overloadIndex\":2\x7d," ++
  "\x7b\"kind\":\"Method\",\"name\":\"dig\",\"isStatic\":true\x7d," ++
  "\x7b\"kind\":\"Method\",\"name\":\"dig-method\"\x7d," ++
  "\x7b\"kind\":\"Property\",\"name\":\"dig-method-2\"\x7d]\x7d]\x7d]\x7d"

/-- The second overload of a method, whose anchor is the name of another one. -/
def secondDig : Info := { Info.plain .method "dig" with overloadIndex := 2 }

theorem anchors_tell_members_of_fox_apart :
    (secondDig.kind.isMethod = true ∧ anchorOf? secondDig = some ("dig-method-2" : Text) ∧
      anchorOf? secondDig ≠ anchorOf? (.plain .property "dig-method-2")) ∧
    ∃ root, ∃ (env : Env), ∃ ss, ∃ s ∈ ss, ∃ i,
      (packageOfText .null [] burrow).outcome = .ok root ∧ env.root = root ∧
      (env.sheets [] root).outcome = .ok ss ∧ root.info? s.item = some i ∧
      i.kind.isInheriting = true ∧ (root.membersAt s.item).length = 5 ∧
      Apart root SameMember (root.membersAt s.item) ∧ (anchors s.nodes).Nodup := by
  obtain ⟨hanchors, hpages⟩ := anchors_tell_members_apart
  refine ⟨⟨rfl, rfl, fun heq => ?_⟩, ?_⟩
  · exact absurd ((hanchors _ _ (.inl rfl) (.inr rfl)).mp heq) (by decide)
  · have hread : (packageOfText .null [] burrow).outcome.toOption.any (fun root => decide
        (((root.kind? []).any isContainer = true ∧ [0, 0] ∈ root.exportsAt [] ∧
            (root.kind? [0, 0]).any listedKinds.contains = true) ∧
          (root.info? [0, 0]).any (fun i => i.kind.isInheriting) = true ∧
          (root.membersAt [0, 0]).length = 5 ∧
          Apart root SameMember (root.membersAt [0, 0]))) = true := by
      decide +kernel
    obtain ⟨root, hload, hall⟩ := exists_eq_ok_and hread
    obtain ⟨hlisted, hinfo, hlength, hapart⟩ := of_decide_eq_true hall
    obtain ⟨i, hi, hkind⟩ := (Option.any_eq_true _ _).mp hinfo
    obtain ⟨env, ss, -, -, hsheets, -, rfl, -⟩ := exists_pages_of_text hload
    have hbuilt := built_sheets env.root [] ss rfl hsheets
    have hmem := (hbuilt.mem_iff [0, 0]).mpr (.single hlisted)
    obtain ⟨s, hs, hitem⟩ := List.mem_map.mp hmem
    rw [← hitem] at hi hlength hapart
    have hdistinct := (hpages .null [] burrow env.root hload env ss rfl hsheets s hs i hi hkind).mpr
      hapart
    exact ⟨env.root, env, ss, s, hs, i, hload, rfl, hsheets, hi, hkind, hlength, hapart, hdistinct⟩

end ApiReference.Site
