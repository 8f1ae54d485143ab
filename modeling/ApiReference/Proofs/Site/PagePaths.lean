import ApiReference.Proofs.Page.Files
import ApiReference.Proofs.Scope.FullNames
import ApiReference.Proofs.Site.PageOrder

/-!
# No page takes the place of another

If no two declarations that a package or namespace exports share a file, then no two
pages of the package have the same path, however deep they are
(`packagePages_paths_nodup`).  That members differ in kind, in name or in the number of
their overload does not suffice for this: functions and variables have one folder, and a
number that is put behind a name may be part of another name (`palette_paths_collide`).
-/

namespace ApiReference.Site

open Declaration Doc Markdown ApiReference.Page

variable {root : Declaration} {extension : Text} {settings : Settings} {grammar : Grammar}
variable {pages : List Page}

/-- Identifiers have no slash in them. -/
theorem slashFree_of_namedByIdentifiers (h : Scope.NamedByIdentifiers root) : SlashFree root := by
  intro a ha i hi hpath hslash
  obtain ⟨m, hm, rfl⟩ := Option.map_eq_some_iff.mp hi
  rcases h a ha with hkind | hname
  · rw [kind?_of_get? hm, Option.all_some] at hkind
    simp [isPathKind, hkind] at hpath
  · rw [nameAt_of_get? hm] at hname
    exact absurd (Scope.isNameChar_of_mem hname hslash) (by decide)

theorem InPageOrder.nodup_path (h : InPageOrder root extension pages)
    (hroot : root.kind = .package) (hnames : SlashFree root) (hfiles : FilesApart root) :
    (pages.map Page.path).Nodup := by
  apply List.Nodup.map_on _ (List.Nodup.of_map _ h.nodup)
  intro p hp q hq hpath
  rw [h.path_eq p hp, h.path_eq q hq] at hpath
  have hstem := List.append_cancel_right hpath
  have hhas : ∀ p ∈ pages, HasPage root p.item := fun p hp =>
    (h.mem_iff p.item).mp (List.mem_map_of_mem hp)
  have hitem := (hhas p hp).eq_of_stemOf hroot hnames hfiles (hhas q hq) hstem
  exact List.inj_on_of_nodup_map h.nodup hp hq hitem

/-- Pages are built with an extension that is a text only. -/
theorem exists_extension (h : (packagePages settings grammar root).outcome = .ok pages) :
    ∃ extension, settings.extension = .text extension := by
  unfold packagePages at h
  rw [Traced.outcome_bind] at h
  obtain ⟨env, henv, -⟩ := bind_eq_ok.mp h
  exact ⟨_, (envOf_eq_ok henv).2⟩

/-- No page of a package is at the path of another one, whatever the settings and the grammar are,
if no two declarations that the package or a namespace in it exports share a file; and the pages of
every such package with comments as they are read can be built. -/
theorem packagePages_paths_nodup (hroot : root.kind = .package) (hnames : SlashFree root)
    (hfiles : FilesApart root) :
    (∀ settings grammar pages, (packagePages settings grammar root).outcome = .ok pages →
      (pages.map Page.path).Nodup) ∧
    ∀ settings extension, settings.extension = .text extension →
      opensFence settings.language = true → Commented root →
      ∃ pages, (packagePages settings .standard root).outcome = .ok pages ∧
        (pages.map Page.path).Nodup := by
  have hnodup : ∀ settings grammar pages,
      (packagePages settings grammar root).outcome = .ok pages → (pages.map Page.path).Nodup := by
    intro settings grammar pages hpages
    obtain ⟨extension, hextension⟩ := exists_extension hpages
    exact (inPageOrder_packagePages hextension hpages).nodup_path hroot hnames hfiles
  refine ⟨hnodup, ?_⟩
  intro settings extension hextension hlanguage hcomments
  obtain ⟨-, -, pages, -, -, hpages, -⟩ :=
    yields_packagePages hextension hlanguage hroot hcomments
  exact ⟨pages, hpages, hnodup settings .standard pages hpages⟩

/-- A package with names that recur: in other folders, in namespaces, and as overloads. -/
def atlas : Declaration :=
  ⟨.plain .package "@maps/atlas", [⟨.plain .entryPoint [], [
    ⟨.plain .enumType "Map", []⟩,
    ⟨.plain .typeAlias "map", []⟩,
    ⟨.plain .function "draw", []⟩,
    ⟨{ Info.plain .function "draw" with overloadIndex := 2 }, []⟩,
    ⟨.plain .nameSpace "Map", [
      ⟨.plain .enumType "Map", []⟩,
      ⟨.plain .nameSpace "Map", [⟨.plain .variableDecl "DRAW", []⟩]⟩]⟩]⟩]⟩

theorem atlas_paths_nodup : ∃ pages,
    (packagePages .standard .standard atlas).outcome = .ok pages ∧
    pages.map Page.path = ["enums/map.md".toList, "types/map.md", "variables/draw.md",
      "variables/draw_2.md", "namespaces/map/enums/map.md",
      "namespaces/map/namespaces/map/variables/draw.md", "namespaces/map/namespaces/map.md",
      "namespaces/map.md", "index.md"] ∧ (pages.map Page.path).Nodup := by
  have hbuilt : (packagePages .standard .standard atlas).outcome.toOption.any (fun pages =>
      pages.map Page.path == ["enums/map.md".toList, "types/map.md", "variables/draw.md",
        "variables/draw_2.md", "namespaces/map/enums/map.md",
        "namespaces/map/namespaces/map/variables/draw.md", "namespaces/map/namespaces/map.md",
        "namespaces/map.md", "index.md"]) = true := by
    decide +kernel
  obtain ⟨pages, hpages, hpaths⟩ := exists_eq_ok_and hbuilt
  have hnames : SlashFree atlas := slashFree_of_namedByIdentifiers (by decide +kernel)
  have hfiles : FilesApart atlas := by decide +kernel
  exact ⟨pages, hpages, eq_of_beq hpaths,
    (packagePages_paths_nodup rfl hnames hfiles).1 _ _ pages hpages⟩

/-! ## Members that differ -/

/-- Members that agree in kind, in name apart from case, and in the number of the overload. -/
def SameOverload (i j : Info) : Prop :=
  i.kind = j.kind ∧ Text.lower i.name = Text.lower j.name ∧ i.overloadIndex = j.overloadIndex

instance SameOverload.decidable (i j : Info) : Decidable (SameOverload i j) :=
  inferInstanceAs (Decidable (_ ∧ _ ∧ _))

/-- The description of a package with a function and a variable whose names differ in case, and with
a function whose name looks like that of an overload. -/
def palette : Text :=
  "\x7b\"kind\":\"Package\",\"name\":\"palette\",\"members\":[" ++
  "\x7b\"kind\":\"EntryPoint\",\"name\":\"\",\"members\":[" ++
  "\x7b\"kind\":\"Function\",\"name\":\"Color\"\x7d," ++
  "\x7b\"kind\":\"Variable\",\"name\":\"color\"\x7d," ++
  "\x7b\"kind\":\"Function\",\"name\":\"mix\",\"overloadIndex\":2\x7d," ++
  "\x7b\"kind\":\"Function\",\"name\":\"mix_2\"\x7d]\x7d]\x7d"

/-- No two members of the package agree, and yet its pages take the places of others. -/
theorem palette_paths_collide :
    ∃ root pages, (packageOfText .null [] palette).outcome = .ok root ∧
      Scope.NamedByIdentifiers root ∧
      (∀ a ∈ root.walk, Apart root SameOverload (root.membersAt a)) ∧
      (packagePages .standard .standard root).outcome = .ok pages ∧
      pages.map Page.path = ["variables/color.md".toList, "variables/color.md",
        "variables/mix_2.md", "variables/mix_2.md", "index.md"] ∧
      ¬ (pages.map Page.path).Nodup := by
  have hread : ((packageOfText .null [] palette).outcome >>= fun root =>
      (packagePages .standard .standard root).outcome >>= fun pages =>
        .ok (root, pages)).toOption.any (fun found =>
          decide (Scope.NamedByIdentifiers found.1 ∧
            (∀ a ∈ found.1.walk, Apart found.1 SameOverload (found.1.membersAt a)) ∧
            found.2.map Page.path = ["variables/color.md".toList, "variables/color.md",
              "variables/mix_2.md", "variables/mix_2.md", "index.md"])) = true := by
    decide +kernel
  obtain ⟨⟨root, pages⟩, hfound, hall⟩ := exists_eq_ok_and hread
  obtain ⟨root', hload, hfound⟩ := bind_eq_ok.mp hfound
  obtain ⟨pages', hpages, hfound⟩ := bind_eq_ok.mp hfound
  cases hfound
  obtain ⟨hnamed, hapart, hpaths⟩ := of_decide_eq_true hall
  refine ⟨root, pages, hload, hnamed, hapart, hpages, hpaths, ?_⟩
  rw [hpaths]
  decide

end ApiReference.Site
