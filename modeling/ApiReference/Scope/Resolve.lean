import ApiReference.Scope.TypeMap
import ApiReference.Text.Word

/-!
# Type names in their scope

A type name is tried in the scope of the declaration that uses it, and then in
those of its containers.
-/

namespace ApiReference.Scope

open Declaration

/-- Adds a name at the end unless it is there. -/
def addNew (names : List Text) (name : Text) : List Text :=
  if names.contains name then names else names ++ [name]

/-- A name as it reads inside a scope. -/
def qualify (scope name : Text) : Text := if scope.isEmpty then name else scope ++ '.' :: name

/-- The scoped names that a type name may stand for inside a declaration, nearest scope first. -/
def candidates (root : Declaration) (origin : Address) (name : Text) : List Text :=
  (hierarchy origin).reverse.foldl
    (fun names a => addNew names (qualify (root.scopedName a) name)) []

/-- The declaration that a type name stands for inside another one. -/
def resolve (root : Declaration) (types : TypeMap) (origin : Address) (name : Text) :
    Option Address :=
  if name.head?.any Text.isWord then
    (candidates root origin name).findSome? fun candidate => types.lookup candidate
  else none

end ApiReference.Scope
