import ApiReference.Proofs.Page.Order
import ApiReference.Proofs.Site.Pages

/-!
# Which pages a package has, and their order

The pages of a package are those of the package and of all that is listed on a page
of a package or namespace, each once.  They come in post-order, the package last, and
each is at the path that links to its declaration lead to.
-/

namespace ApiReference.Site

open Declaration Doc Markdown ApiReference.Page

variable {root : Declaration} {extension : Text} {env : Env} {settings : Settings}
variable {grammar : Grammar} {ss : List Sheet} {pages : List Page}

/-- Pages as a tree of declarations has them. -/
structure InPageOrder (root : Declaration) (extension : Text) (pages : List Page) : Prop where
  /-- The root has a page, and so does all that is listed on the page of a package or namespace. -/
  mem_iff : ∀ a, a ∈ pages.map Page.item ↔ HasPage root a
  /-- No declaration has two pages. -/
  nodup : (pages.map Page.item).Nodup
  /-- No page comes before that of something inside its declaration. -/
  inner_first : (pages.map Page.item).Pairwise fun a b => ¬ a <+: b
  /-- The pages of a member, with all inside it, come before those of the next member. -/
  member_order : (pages.map Page.item).Pairwise fun a b => b <+: a ∨ a < b
  home_last : (pages.map Page.item).getLast? = some []
  path_eq : ∀ p ∈ pages, p.path = ((Router.mk extension).locate root p.item).path

/-- Writing the texts of pages leaves the pages what they are of, and where they are. -/
theorem emitSheets_eq_ok (h : (emitSheets env ss).outcome = .ok pages) :
    pages.map (fun p => (p.item, p.path)) = ss.map fun s => (s.item, s.path) := by
  induction ss generalizing pages with
  | nil =>
    obtain rfl := Except.ok.inj h
    rfl
  | cons s ss ih =>
    unfold emitSheets at h
    simp only [Traced.outcome_bind, bind_eq_ok] at h
    obtain ⟨text, -, rest, hrest, h⟩ := h
    obtain rfl := Except.ok.inj h
    rw [List.map_cons, List.map_cons, ih hrest]

/-- The package is after all that is inside it. -/
theorem getLast?_of_pairwise {as : List Address} (h : as.Pairwise Before) (hmem : [] ∈ as) :
    as.getLast? = some [] := by
  obtain ⟨before, after, rfl⟩ := List.append_of_mem hmem
  have hnil : after = [] := by
    refine List.eq_nil_iff_forall_not_mem.mpr fun b hb => ?_
    have htail := (List.pairwise_append.mp h).2.1
    exact (List.rel_of_pairwise_cons htail hb).1 List.nil_prefix
  rw [hnil, List.getLast?_concat]

theorem inPageOrder_of_built (hbuilt : Built env (PageBelow env.root []) ss)
    (hpages : pages.map (fun p => (p.item, p.path)) = ss.map fun s => (s.item, s.path)) :
    InPageOrder env.root env.router.extension pages := by
  have hitems : pages.map Page.item = ss.map Sheet.item := by
    have hfirst := congrArg (List.map Prod.fst) hpages
    rwa [List.map_map, List.map_map] at hfirst
  have hmem : ∀ a, a ∈ pages.map Page.item ↔ HasPage env.root a := by
    intro a
    rw [hitems, hbuilt.mem_iff, hasPage_iff]
  have hpairwise : (pages.map Page.item).Pairwise Before := hitems ▸ hbuilt.pairwise
  constructor
  · exact hmem
  · refine hpairwise.imp fun hab heq => hab.1 ?_
    exact heq ▸ List.prefix_rfl
  · exact hpairwise.imp And.left
  · exact hpairwise.imp And.right
  · exact getLast?_of_pairwise hpairwise ((hmem []).mpr .home)
  · intro p hp
    have hmem : (p.item, p.path) ∈ ss.map fun s => (s.item, s.path) :=
      hpages ▸ List.mem_map_of_mem hp
    obtain ⟨s, hs, heq⟩ := List.mem_map.mp hmem
    obtain ⟨hitem, hpath⟩ := Prod.mk.inj heq
    rw [← hitem, ← hpath, (hbuilt.pageOf s hs).path_eq]

theorem inPageOrder_packagePages (hextension : settings.extension = .text extension)
    (h : (packagePages settings grammar root).outcome = .ok pages) :
    InPageOrder root extension pages := by
  unfold packagePages at h
  simp only [Traced.outcome_bind, bind_eq_ok] at h
  obtain ⟨env, henv, ss, hss, pages', hpages, -, -, h⟩ := h
  obtain rfl := Except.ok.inj h
  obtain ⟨rfl, hrouter⟩ := envOf_eq_ok henv
  obtain rfl := Json.text.inj (hextension.symm.trans hrouter)
  exact inPageOrder_of_built (built_sheets env.root [] ss rfl hss) (emitSheets_eq_ok hpages)

/-- Whatever tree, settings and grammar the pages are built with, if they can be built then there is
one for the package and one for each listed declaration, in post-order and where links lead to; and
they can be built of every package with comments as they are read. -/
theorem packagePages_in_order (root : Declaration)
    (hextension : settings.extension = .text extension) :
    (∀ grammar pages, (packagePages settings grammar root).outcome = .ok pages →
      InPageOrder root extension pages) ∧
    (opensFence settings.language = true → root.kind = .package → Commented root →
      ∃ pages, (packagePages settings .standard root).outcome = .ok pages) := by
  constructor
  · intro grammar pages hpages
    exact inPageOrder_packagePages hextension hpages
  · intro hlanguage hkind hroot
    obtain ⟨_, _, pages, _, _, hpages, _⟩ := yields_packagePages hextension hlanguage hkind hroot
    exact ⟨pages, hpages⟩

/-- The description of a package with a namespace inside another one. -/
def grove : Text :=
  "\x7b\"kind\":\"Package\",\"name\":\"grove\",\"members\":[" ++
  "\x7b\"kind\":\"EntryPoint\",\"members\":[" ++
  "\x7b\"kind\":\"Namespace\",\"name\":\"Oak\",\"members\":[" ++
  "\x7b\"kind\":\"Enum\",\"name\":\"Leaf\"," ++
  "\"members\":[\x7b\"kind\":\"EnumMember\",\"name\":\"Green\"\x7d]\x7d," ++
  "\x7b\"kind\":\"Namespace\",\"name\":\"Branch\"," ++
  "\"members\":[\x7b\"kind\":\"Variable\",\"name\":\"twigs\"\x7d]\x7d]\x7d," ++
  "\x7b\"kind\":\"Function\",\"name\":\"plant\"\x7d]\x7d]\x7d"

theorem packagePages_of_grove :
    ∃ root pages, (packageOfText .null [] grove).outcome = .ok root ∧
      root.kind = .package ∧ Commented root ∧
      (packagePages .standard .standard root).outcome = .ok pages ∧
      InPageOrder root ".md" pages ∧ pages.map Page.item =
        [[0, 0, 0], [0, 0, 1, 0], [0, 0, 1], [0, 0], [0, 1], []] := by
  have hread : ((packageOfText .null [] grove).outcome >>= fun root =>
      (packagePages .standard .standard root).outcome).toOption.any (fun pages =>
        pages.map Page.item ==
          [[0, 0, 0], [0, 0, 1, 0], [0, 0, 1], [0, 0], [0, 1], []]) = true := by
    decide +kernel
  obtain ⟨found, hfound, hitems⟩ := exists_eq_ok_and hread
  obtain ⟨root, hload, hfound⟩ := bind_eq_ok.mp hfound
  obtain ⟨hkind, hroot⟩ := packageOfText_eq_ok hload
  have hextension : Settings.standard.extension = .text ".md" := rfl
  obtain ⟨hinorder, hbuilds⟩ := packagePages_in_order root hextension
  obtain ⟨pages, hpages⟩ := hbuilds rfl hkind hroot
  obtain rfl := Except.ok.inj (hfound.symm.trans hpages)
  exact ⟨root, found, hload, hkind, hroot, hpages, hinorder _ found hpages, eq_of_beq hitems⟩

end ApiReference.Site
