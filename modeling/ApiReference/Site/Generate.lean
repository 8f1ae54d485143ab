import ApiReference.Config.Default
import ApiReference.Markdown.Emit
import ApiReference.Page.Build
import ApiReference.Scope.Reference

/-!
# The pages of a package

From a tree of declarations to the texts of its pages, under the settings of a
configuration.
-/

namespace ApiReference.Site

open Declaration Doc Page

/-- What a configuration says about pages. -/
structure Settings where
  extension : Json
  language : Json
deriving Repr

/-- The extension of the pages' names. -/
def extensionOf (config : Json) : Except Fault Json :=
  Config.setting (Config.orStandard config) "output" "extension"

/-- The language of signatures. -/
def languageOf (config : Json) : Except Fault Json :=
  Config.setting (Config.orStandard config) "signature" "language"

/-- The settings of a configuration; one that says nothing stands for the standard one. -/
def Settings.ofConfig (config : Json) : Except Fault Settings := do
  return ⟨← extensionOf config, ← languageOf config⟩

/-- The naming scheme with a given extension, which has to be a text. -/
def routerOf : Json → Except Fault Router
  | .text extension => .ok ⟨extension⟩
  | _ => .error .wrongType

/-- A page with its text. -/
structure Page where
  item : Address
  path : Text
  text : Text
deriving DecidableEq, Repr

/-- What the pages of a tree are built with. -/
def envOf (settings : Settings) (grammar : Grammar) (root : Declaration) : Traced Env := do
  let types ← TypeMap.of root
  let graph ← Inheritance.graphOf root types
  let router ← routerOf settings.extension
  return ⟨root, types, graph, router, grammar, settings.language⟩

/-- How the references in the comments of a page lead to other pages. -/
def resolverFor (env : Env) (sheet : Sheet) : Markdown.Resolver := fun reference => do
  let target ← Scope.reference env.root env.types (some sheet.item) reference
  return ⟨some (env.router.linkFrom env.root sheet.path target), env.root.scopedName target⟩

/-- The pages with their texts. -/
def emitSheets (env : Env) : List Sheet → Traced (List Page)
  | [] => return []
  | sheet :: sheets => do
    let text ← Markdown.emit (some (resolverFor env sheet)) (.body sheet.nodes)
    return ⟨sheet.item, sheet.path, text⟩ :: (← emitSheets env sheets)

/-- All pages of a package, those of members before those of their containers. -/
def packagePages (settings : Settings) (grammar : Grammar) (root : Declaration) :
    Traced (List Page) := do
  let env ← envOf settings grammar root
  let sheets ← env.sheets [] root
  let pages ← emitSheets env sheets
  Noted.note (.builtPages pages.length root.name)
  return pages

/-- The pages of several packages, one package at a time. -/
def modelPages (settings : Settings) (grammar : Grammar) : List Declaration → Traced (List Page)
  | [] => return []
  | root :: roots => do
    let pages ← packagePages settings grammar root
    return pages ++ (← modelPages settings grammar roots)

end ApiReference.Site
