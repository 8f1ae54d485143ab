import ApiReference.Declaration.Lineage
import ApiReference.Page.Path
import ApiReference.Text.Case

/-!
# Where declarations are documented

The path of a page and the anchor of a member follow from the containers of a
declaration alone, so links can be written before the pages exist.
-/

namespace ApiReference.Page

open Declaration

/-- The page of a declaration, and its place on the page if the page is not its own. -/
structure Location where
  path : Text
  anchor? : Option Text
deriving DecidableEq, Repr

def Location.href (l : Location) : Text :=
  match l.anchor? with
  | none | some [] => l.path
  | some anchor => l.path ++ '#' :: anchor

/-- The folder of the pages of a kind. -/
def folderName? : Kind → Option Text
  | .classType => some "classes"
  | .enumType => some "enums"
  | .interfaceType => some "interfaces"
  | .nameSpace => some "namespaces"
  | .typeAlias => some "types"
  | .function | .variableDecl => some "variables"
  | _ => none

/-- A mark that tells an overload from the first one. -/
def overloadMark (separator : Char) (i : Info) : Text :=
  if i.kind.takesParameters && decide (1 < i.overloadIndex) then
    separator :: Text.ofInt i.overloadIndex
  else []

def staticMark (i : Info) : Text := if i.isStatic then "-static" else []

/-- The word for what a method, event or property is. -/
def categoryMark? (i : Info) : Option Text :=
  if i.kind.isMethod then some "-method"
  else if i.kind.isProperty then some (if i.isEvent then "-event" else "-property")
  else none

/-- The anchor of a method, event or property on the page of its container. -/
def anchorOf? (i : Info) : Option Text :=
  (categoryMark? i).map fun mark => i.name ++ mark ++ staticMark i ++ overloadMark '-' i

/-- The part of a path that a declaration adds. -/
def segmentOf (i : Info) : Text :=
  let name := i.name ++ overloadMark '_' i
  match folderName? i.kind with
  | some folder => folder ++ '/' :: name
  | none => name

/-- The declarations on the way whose names make the path. -/
def isPathKind (k : Kind) : Bool := !k.isRoot && !k.isMethod && !k.isProperty

/-- The path of a page without its extension. -/
def stemOf (lineage : List Info) : Text :=
  let stem := Text.lower
    (Text.join ['/'] ((lineage.filter fun i => isPathKind i.kind).map segmentOf))
  if stem.isEmpty then "index" else stem

/-- The naming scheme of pages. -/
structure Router where
  extension : Text
deriving DecidableEq, Repr

namespace Router

def locationOf (r : Router) (lineage : List Info) : Location where
  path := stemOf lineage ++ r.extension
  anchor? := (lineage.filterMap anchorOf?).getLast?

/-- The page that documents a declaration. -/
def locate (r : Router) (root : Declaration) (a : Address) : Location :=
  r.locationOf (root.lineage a)

/-- The link to a declaration from the page at a path. -/
def linkFrom (r : Router) (root : Declaration) (origin : Text) (target : Address) : Text :=
  let location := r.locate root target
  let path := dotted (relativePath (folderOf origin) location.path)
  (Location.mk path location.anchor?).href

end Router

end ApiReference.Page
