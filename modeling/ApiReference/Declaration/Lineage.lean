import ApiReference.Declaration.Basic
import ApiReference.Diagnostics.Fault

/-!
# Names along the way to a declaration

What a declaration is called depends on its containers.  `lineage` lists them,
outermost first, and the functions here read names and addresses off that list.
-/

namespace ApiReference.Declaration

/-- The names of the containers and the declaration itself, joined by dots; models, packages and
entry points add nothing. -/
def scopedNameOf (lineage : List Info) : Text :=
  Text.join "." ((lineage.filter fun i => !i.kind.isRoot).map Info.name)

def scopedName (root : Declaration) (a : Address) : Text := scopedNameOf (root.lineage a)

/-- The addresses of the containers of a declaration and its own, outermost first. -/
def hierarchy (a : Address) : List Address := (List.range (a.length + 1)).map fun n => a.take n

def info? (root : Declaration) (a : Address) : Option Info := (root.get? a).map (·.toInfo)

def kind? (root : Declaration) (a : Address) : Option Kind := (root.get? a).map (·.kind)

/-- The declaration at an address that has to be one of a declaration. -/
def fetch (root : Declaration) (a : Address) : Except Fault Declaration :=
  match root.get? a with
  | some d => .ok d
  | none => .error .noSuchMember

/-- The name of the declaration at an address. -/
def nameAt (root : Declaration) (a : Address) : Text :=
  match root.get? a with
  | some d => d.name
  | none => []

/-- The outermost package around a declaration. -/
def packageOf? (root : Declaration) (a : Address) : Option Address :=
  (hierarchy a).find? fun b => root.kind? b == some .package

/-- The addresses of the declarations that the one at an address exports. -/
def exportsAt (root : Declaration) (a : Address) : List Address :=
  match root.get? a with
  | some d => d.exportsOf a
  | none => []

/-- The addresses of the members of the declaration at an address. -/
def membersAt (root : Declaration) (a : Address) : List Address :=
  match root.get? a with
  | some d => memberAddresses a d
  | none => []

@[simp] theorem length_hierarchy (a : Address) : (hierarchy a).length = a.length + 1 := by
  simp [hierarchy]

end ApiReference.Declaration
