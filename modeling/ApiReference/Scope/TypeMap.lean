import ApiReference.Declaration.Lineage
import ApiReference.Diagnostics.Traced

/-!
# The types of a package by name

The types are visited level by level.  Of several with one name the last one
counts, at the place of the first.
-/

namespace ApiReference

open Declaration

/-- The declaration that each scoped name stands for, in the order the names were first met. -/
abbrev TypeMap := List (Text × Address)

namespace TypeMap

/-- Lets a name stand for a declaration; a known name keeps its place. -/
def insert (name : Text) (a : Address) : TypeMap → TypeMap
  | [] => [(name, a)]
  | entry :: map => if entry.1 = name then (name, a) :: map else entry :: insert name a map

/-- Adds the types among the declarations at some addresses. -/
def collect (root : Declaration) : List Address → TypeMap → Noted TypeMap
  | [], map => return map
  | a :: rest, map =>
    if (root.kind? a).any Kind.isType then do
      let name := root.scopedName a
      if (map.lookup name).isSome then Noted.note (.duplicateType name)
      collect root rest (map.insert name a)
    else collect root rest map

/-- The types of a tree. Of two with one name the later one counts, level by level. -/
def of (root : Declaration) : Noted TypeMap := collect root root.breadthFirst []

end TypeMap

end ApiReference
