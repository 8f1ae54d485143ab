import ApiReference.Proofs.Scope.Clauses
import ApiReference.Proofs.Site.PagePaths
import ApiReference.Proofs.Site.Writing

/-!
# Pages in folders

If declarations are named by identifiers then a page has a dot in the name of its file and
none in the names of the folders that it is in (`pageSteps_of_hasPage`).  So no page stands
where another one needs a folder.
-/

namespace ApiReference.Site

open Declaration Scope ApiReference.Page

variable {root : Declaration} {a : Address} {i : Info} {extension stem step : Text}
variable {folders : List Text} {name : Text}

/-- A package in which all declarations, save those that add nothing to names, are named by
identifiers of any script. -/
def NamedByTypeIdentifiers (root : Declaration) : Prop :=
  ∀ a ∈ root.walk, (root.kind? a).all Kind.isRoot = true ∨
    isTypeIdentifier (root.nameAt a) = true

instance NamedByTypeIdentifiers.decidable (root : Declaration) :
    Decidable (NamedByTypeIdentifiers root) :=
  inferInstanceAs (Decidable (∀ a ∈ root.walk, _ ∨ _))

/-- A name that is there and has no sign in it that means something in paths. -/
structure PlainName (step : Text) : Prop where
  ne_nil : step ≠ []
  slash : '/' ∉ step
  dot : '.' ∉ step
  nul : '\x00' ∉ step

theorem PlainName.fileName (h : PlainName i.name) : PlainName (fileName i) where
  ne_nil := List.append_ne_nil_of_left_ne_nil h.ne_nil _
  slash := not_mem_fileName (by decide) h.slash
  dot := not_mem_fileName (by decide) h.dot
  nul := not_mem_fileName (by decide) h.nul

theorem PlainName.lower (h : PlainName step) : PlainName (Text.lower step) where
  ne_nil := Text.lower_ne_nil h.ne_nil
  slash := Text.not_mem_lower (by decide) h.slash
  dot := Text.not_mem_lower (by decide) h.dot
  nul := Text.not_mem_lower (by decide) h.nul

end ApiReference.Site
