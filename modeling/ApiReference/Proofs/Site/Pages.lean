import ApiReference.Proofs.Page.Documented
import ApiReference.Site.Generate

/-!
# The pages of a package

Every package document that can be read becomes a set of pages: nothing in it stops
the building of the pages or the writing of their texts, and the checker accepts every
page.  Each link on a page leads to an address that a comment gives or to a
declaration of the package, and then to a page that was built, if the declaration is
documented anywhere.
-/

namespace ApiReference.Site

open Declaration Doc Markdown ApiReference.Page

variable {config language : Json} {extension file text : Text} {root : Declaration} {env : Env}
variable {s : Sheet} {ss : List Sheet} {settings : Settings}

/-! ## What pages are built with -/

/-- The environment of a tree with sound comments is sound. -/
theorem yields_envOf (hextension : settings.extension = .text extension)
    (hlanguage : opensFence settings.language = true) (hroot : Commented root) :
    Yields (envOf settings .standard root).outcome fun env =>
      env.Sound ∧ env.root = root ∧ env.router = ⟨extension⟩ := by
  have htypes := TypeMap.within_of root
  unfold envOf
  refine Yields.bindTraced (P := (·.Within root)) ⟨_, rfl, htypes⟩ fun types htypes => ?_
  refine Yields.bindTraced (P := Inheritance.GraphWithin root)
    ⟨_, rfl, Inheritance.graphWithin_graphOf htypes⟩ fun graph hgraph => ?_
  refine Yields.bindTraced (P := (· = ⟨extension⟩)) ⟨_, by rw [hextension]; rfl, rfl⟩
    fun router hrouter => .pure ?_
  exact ⟨⟨rfl, hlanguage, hroot, htypes, hgraph⟩, rfl, hrouter⟩

/-- What pages are built with is for the tree and has the extension that is set. -/
theorem envOf_eq_ok {grammar : Grammar} (h : (envOf settings grammar root).outcome = .ok env) :
    env.root = root ∧ settings.extension = .text env.router.extension := by
  unfold envOf at h
  simp only [Traced.outcome_bind, bind_eq_ok] at h
  obtain ⟨types, -, graph, -, router, hrouter, h⟩ := h
  obtain rfl := Except.ok.inj h
  refine ⟨rfl, ?_⟩
  rw [Traced.outcome_liftExcept] at hrouter
  unfold routerOf at hrouter
  split at hrouter
  · rename_i extension hextension
    obtain rfl := Except.ok.inj hrouter
    exact hextension
  · cases hrouter

/-- A reference that is resolved leads to a declaration. -/
theorem finds_resolverFor (he : env.Sound) (s : Sheet) :
    Finds (some (resolverFor env s)) (env.Leads s.path) := by
  rintro resolver hresolver reference target htarget file hfile
  obtain rfl := Option.some.inj (Option.mem_def.mp hresolver)
  unfold resolverFor at htarget
  cases href : Scope.reference env.root env.types (some s.item) reference with
  | error reason =>
    rw [href] at htarget
    cases htarget
  | ok t =>
    rw [href] at htarget
    obtain rfl := Except.ok.inj htarget
    obtain rfl := Option.some.inj (Option.mem_def.mp hfile)
    exact .inr ⟨t, Scope.mem_walk_of_reference he.types href, rfl⟩

/-! ## Writing -/

/-- A page with the text of a tree that has links in place of the references, and in which every
link leads where it should. -/
structure Written (env : Env) (s : Sheet) (p : Page) : Prop where
  item_eq : p.item = s.item
  path_eq : p.path = s.path
  tree : ∃ tree, (linked (some (resolverFor env s)) (.body s.nodes)).outcome = .ok tree ∧
    p.text = render tree ∧ Sound (PageLeaf (env.Leads s.path)) tree

/-- Every page that was built is written, in order. -/
theorem paths_of_written {pages : List Page} (h : List.Forall₂ (Written env) ss pages) :
    pages.map Page.path = ss.map Sheet.path := by
  induction h with
  | nil => rfl
  | cons hp _ ih => rw [List.map_cons, List.map_cons, hp.path_eq, ih]

theorem yields_emitSheets (he : env.Sound) (hss : ∀ s ∈ ss, env.SheetFits s) :
    Yields (emitSheets env ss).outcome (List.Forall₂ (Written env) ss) := by
  induction ss with
  | nil => exact .pure .nil
  | cons s ss ih =>
    obtain ⟨hs, hrest⟩ := List.forall_mem_cons.mp hss
    have htree := yields_linked (finds_resolverFor he s) (Sound.body_iff.mpr hs.onPage)
    unfold emitSheets emit
    obtain ⟨tree, heq, hsound⟩ := htree
    refine Yields.bindTraced (P := (· = render tree)) ?_ fun text htext => ?_
    · exact Yields.bindTraced ⟨tree, heq, rfl⟩ fun _ h => .pure (congrArg render h.symm)
    · refine Yields.bindTraced (ih hrest) fun pages hpages => .pure ?_
      exact .cons ⟨rfl, rfl, tree, heq, htext, hsound⟩ hpages

/-- All steps from a tree to its pages go through. -/
theorem yields_packagePages (hextension : settings.extension = .text extension)
    (hlanguage : opensFence settings.language = true) (hkind : root.kind = .package)
    (hroot : Commented root) :
    ∃ env ss pages, (envOf settings .standard root).outcome = .ok env ∧
      (env.sheets [] root).outcome = .ok ss ∧
      (packagePages settings .standard root).outcome = .ok pages ∧
      env.root = root ∧ env.router = ⟨extension⟩ ∧ env.Pages ss ∧ (∃ s ∈ ss, s.item = []) ∧
      List.Forall₂ (Written env) ss pages := by
  obtain ⟨env, henv, he, rfl, hrouter⟩ := yields_envOf hextension hlanguage hroot
  obtain ⟨ss, hsheets, hpages, hhome⟩ := he.yields_sheets env.root [] rfl (.inl hkind)
  obtain ⟨pages, hemit, hwritten⟩ := yields_emitSheets he hpages.fits
  refine ⟨env, ss, pages, henv, hsheets, ?_, rfl, hrouter, hpages, hhome, hwritten⟩
  rw [packagePages, Traced.outcome_bind, henv, Except.ok_bind, Traced.outcome_bind, hsheets,
    Except.ok_bind, Traced.outcome_bind, hemit]
  rfl

/-! ## Packages read from their descriptions -/

/-- The settings of the standard configuration. -/
def Settings.standard : Settings := ⟨.text ".md", .text "typescript"⟩

/-- A configuration that says nothing has the settings of the standard one. -/
theorem settings_eq_standard (h : Config.orStandard config = Config.standard) :
    Settings.ofConfig config = .ok .standard := by
  rw [Settings.ofConfig, extensionOf, languageOf, h]
  rfl

/-- A package that was read can be taken through all steps with the standard settings. -/
theorem exists_pages_of_text (hload : (packageOfText config file text).outcome = .ok root) :
    ∃ env ss pages, (envOf .standard .standard root).outcome = .ok env ∧
      (env.sheets [] root).outcome = .ok ss ∧
      (packagePages .standard .standard root).outcome = .ok pages ∧
      env.root = root ∧ env.Pages ss ∧ (∃ s ∈ ss, s.item = []) ∧ root.kind = .package ∧
      List.Forall₂ (Written env) ss pages := by
  obtain ⟨hkind, hroot⟩ := packageOfText_eq_ok hload
  have hextension : Settings.standard.extension = .text ".md" := rfl
  have hlanguage : opensFence Settings.standard.language = true := rfl
  obtain ⟨env, ss, pages, henv, hsheets, hpages, heq, -, hfits, hhome, hwritten⟩ :=
    yields_packagePages hextension hlanguage hkind hroot
  exact ⟨env, ss, pages, henv, hsheets, hpages, heq, hfits, hhome, hkind, hwritten⟩

/-- Whatever the text of a package description holds, if it can be read at all then every page of
the package is built, accepted by the checker, and written. -/
theorem packagePages_of_text (hconfig : Config.orStandard config = Config.standard)
    (hload : (packageOfText config file text).outcome = .ok root) :
    ∃ settings env ss pages, Settings.ofConfig config = .ok settings ∧
      (envOf settings .standard root).outcome = .ok env ∧
      (env.sheets [] root).outcome = .ok ss ∧
      (∀ s ∈ ss, Grammar.standard.validate (.body s.nodes) = .ok ()) ∧
      (packagePages settings .standard root).outcome = .ok pages ∧
      pages.map Page.path = ss.map Sheet.path := by
  obtain ⟨env, ss, pages, henv, hsheets, hpages, rfl, hfits, -, -, hwritten⟩ :=
    exists_pages_of_text hload
  refine ⟨.standard, env, ss, pages, settings_eq_standard hconfig, henv, hsheets, ?_, hpages, ?_⟩
  · exact fun s hs => Sound.validate_eq (Sound.body_iff.mpr (hfits.fits s hs).onPage)
  · exact paths_of_written hwritten

/-- The description of a package with a class that extends itself and refers to nothing. -/
def ouroboros : Text :=
  "\x7b\"kind\":\"Package\",\"name\":\"zoo\",\"members\":[" ++
  "\x7b\"kind\":\"EntryPoint\",\"members\":[" ++
  "\x7b\"kind\":\"Class\",\"name\":\"Snake\"," ++
  "\"docComment\":\"/** See \x7b@link Nothing\x7d. */\"," ++
  "\"excerptTokens\":[\x7b\"text\":\"Snake\"\x7d]," ++
  "\"extendsTokenRange\":\x7b\"startIndex\":0,\"endIndex\":1\x7d\x7d]\x7d]\x7d"

theorem packagePages_of_ouroboros :
    Config.orStandard .null = Config.standard ∧
    ∃ root settings env ss pages, (packageOfText .null [] ouroboros).outcome = .ok root ∧
      Settings.ofConfig .null = .ok settings ∧
      (envOf settings .standard root).outcome = .ok env ∧
      (env.sheets [] root).outcome = .ok ss ∧
      (∀ s ∈ ss, Grammar.standard.validate (.body s.nodes) = .ok ()) ∧
      (packagePages settings .standard root).outcome = .ok pages ∧
      pages.map Page.path = ss.map Sheet.path := by
  have hread : (packageOfText .null [] ouroboros).outcome.toOption.isSome = true := by
    decide +kernel
  obtain ⟨root, hload⟩ := exists_eq_ok hread
  obtain ⟨settings, env, ss, pages, h⟩ := packagePages_of_text rfl hload
  exact ⟨rfl, root, settings, env, ss, pages, hload, h⟩

/-! ## Links -/

/-- The destinations of the links in a tree. -/
def linksOf (tree : Node) : List Text :=
  tree.inside.filterMap fun n =>
    match n with
    | .linkTag _ url? _ => url?
    | _ => none

theorem leads_of_mem_linksOf {leads : Text → Prop} {tree : Node} {url : Text}
    (h : Sound (PageLeaf leads) tree) (hurl : url ∈ linksOf tree) : leads url := by
  obtain ⟨n, hn, hlink⟩ := List.mem_filterMap.mp hurl
  split at hlink
  · rename_i reference? url? text?
    obtain rfl : url? = some url := hlink
    exact h.leaf_of_mem_inside hn rfl
  · cases hlink

/-- A page on which every link leads to an address that a comment gives, or to a declaration of the
package; and if that declaration is documented, then the page that the link names is there and has
the anchor that the link names. -/
def LinksLead (env : Env) (ss : List Sheet) (s : Sheet) (p : Page) : Prop :=
  p.path = s.path ∧ ∃ tree, (linked (some (resolverFor env s)) (.body s.nodes)).outcome = .ok tree ∧
    p.text = render tree ∧ ∀ url ∈ linksOf tree, Comment.IsAddress url ∨ ∃ t ∈ env.root.walk,
      url = env.router.linkFrom env.root p.path t ∧ (Documented env.root t → HasPlace env ss t)

/-- No link to a documented declaration dangles, whatever package it is on. -/
theorem links_lead_to_declarations (hconfig : Config.orStandard config = Config.standard)
    (hload : (packageOfText config file text).outcome = .ok root) :
    ∃ settings env ss pages, Settings.ofConfig config = .ok settings ∧
      (envOf settings .standard root).outcome = .ok env ∧ env.root = root ∧
      (env.sheets [] root).outcome = .ok ss ∧
      (packagePages settings .standard root).outcome = .ok pages ∧
      List.Forall₂ (LinksLead env ss) ss pages := by
  obtain ⟨env, ss, pages, henv, hsheets, hpages, rfl, hfits, hhome, hkind, hwritten⟩ :=
    exists_pages_of_text hload
  refine ⟨.standard, env, ss, pages, settings_eq_standard hconfig, henv, rfl, hsheets, hpages, ?_⟩
  refine hwritten.imp fun s p hp => ⟨hp.path_eq, ?_⟩
  obtain ⟨tree, htree, htext, hsound⟩ := hp.tree
  refine ⟨tree, htree, htext, fun url hurl => ?_⟩
  rcases leads_of_mem_linksOf hsound hurl with haddress | ⟨t, ht, hlink⟩
  · exact .inl haddress
  · rw [hp.path_eq]
    exact .inr ⟨t, ht, hlink, hasPlace_of_documented hfits hhome hkind⟩

/-- The description of a package whose enumeration refers to its own member. -/
def paint : Text :=
  "\x7b\"kind\":\"Package\",\"name\":\"paint\",\"members\":[" ++
  "\x7b\"kind\":\"EntryPoint\",\"members\":[" ++
  "\x7b\"kind\":\"Enum\",\"name\":\"Color\"," ++
  "\"docComment\":\"/** See \x7b@link Color.Red\x7d. */\"," ++
  "\"members\":[\x7b\"kind\":\"EnumMember\",\"name\":\"Red\"\x7d]\x7d]\x7d]\x7d"

theorem links_of_paint :
    Config.orStandard .null = Config.standard ∧
    ∃ root settings env ss pages, (packageOfText .null [] paint).outcome = .ok root ∧
      Settings.ofConfig .null = .ok settings ∧
      (envOf settings .standard root).outcome = .ok env ∧ env.root = root ∧
      (env.sheets [] root).outcome = .ok ss ∧
      (packagePages settings .standard root).outcome = .ok pages ∧
      List.Forall₂ (LinksLead env ss) ss pages := by
  have hread : (packageOfText .null [] paint).outcome.toOption.isSome = true := by
    decide +kernel
  obtain ⟨root, hload⟩ := exists_eq_ok hread
  obtain ⟨settings, env, ss, pages, h⟩ := links_lead_to_declarations rfl hload
  exact ⟨rfl, root, settings, env, ss, pages, hload, h⟩

/-- The paths of the pages of a package, with the links on each. -/
def pathsAndLinks (text : Text) : Traced (List (Text × List Text)) := do
  let root ← packageOfText .null [] text
  let env ← envOf .standard .standard root
  let sheets ← env.sheets [] root
  sheets.mapM fun s => do
    let tree ← linked (some (resolverFor env s)) (.body s.nodes)
    return (s.path, linksOf tree)

/-- The member of the enumeration is not documented, and both links to it lead nowhere. -/
theorem links_to_enumMember_lead_nowhere : (pathsAndLinks paint).outcome.toOption =
    some ([("enums/color.md", ["../index.md", "./color.md", "./color/red.md"]),
      ("index.md", ["./index.md", "./enums/color.md", "./enums/color/red.md"])] :
      List (Text × List Text)) := by
  decide +kernel

end ApiReference.Site
