import ApiReference.Comment.Basic
import ApiReference.Declaration.Kind

/-!
# Declarations

A package is a tree of declarations.  A place in it is an `Address`, the list of
member indexes on the way from the root; what depends on the containers of a
declaration is a function of the root and an address.
-/

namespace ApiReference

namespace Declaration

structure Parameter where
  name : Text
  type : Text
deriving DecidableEq, Repr

/-- What is known of a declaration apart from its members. -/
structure Info where
  kind : Kind
  name : Text
  comment? : Option Comment
  releaseTag : ReleaseTag
  isStatic : Bool
  overloadIndex : Int
  /-- The text of the declaration in the source it was extracted from. -/
  excerpt : Text
  extendsTypes : List Text
  implementsTypes : List Text
  parameters : List Parameter
  returnType : Text
  /-- The type of a property, variable or type alias. -/
  valueType : Text
  initializer : Text
  isEvent : Bool
deriving Repr

/-- A declaration of which only kind and name are given. -/
def Info.plain (kind : Kind) (name : Text) : Info where
  kind := kind
  name := name
  comment? := none
  releaseTag := .none
  isStatic := false
  overloadIndex := 1
  excerpt := []
  extendsTypes := []
  implementsTypes := []
  parameters := []
  returnType := []
  valueType := []
  initializer := []
  isEvent := false

/-- The way to a declaration: the index of a member at every step from the root. -/
abbrev Address := List Nat

end Declaration

open Declaration

/-- A declaration with the declarations inside it. -/
structure Declaration extends Info where
  members : List Declaration
deriving Repr

namespace Declaration

/-- The declaration at an address. -/
def get? : Declaration → Address → Option Declaration
  | d, [] => some d
  | d, i :: a =>
    match d.members[i]? with
    | some m => get? m a
    | none => none

/-- The containers on the way to a declaration and the declaration itself, outermost first. -/
def lineage : Declaration → Address → List Info
  | d, [] => [d.toInfo]
  | d, i :: a => d.toInfo ::
    match d.members[i]? with
    | some m => lineage m a
    | none => []

/-- The declaration with one more member at the end of the one at an address. -/
def addMember : (root : Declaration) → Address → (member : Declaration) → Declaration
  | d, [], member => { d with members := d.members ++ [member] }
  | d, i :: a, member =>
    match d.members[i]? with
    | some m => { d with members := d.members.set i (addMember m a member) }
    | none => d

/-- The addresses below `a` of the members of a declaration at `a`. -/
def memberAddresses (a : Address) (d : Declaration) : List Address :=
  (List.range d.members.length).map fun i => a ++ [i]

mutual

/-- The addresses of a declaration at `a` and of everything inside it, containers before their
members. -/
def walkFrom (a : Address) : Declaration → List Address
  | ⟨_, ms⟩ => a :: walkMembers a 0 ms

def walkMembers (a : Address) (i : Nat) : List Declaration → List Address
  | [] => []
  | m :: ms => walkFrom (a ++ [i]) m ++ walkMembers a (i + 1) ms

end

def walk (d : Declaration) : List Address := walkFrom [] d

/-- Joins lists level by level. -/
def zipLevels {α : Type} : List (List α) → List (List α) → List (List α)
  | [], ys => ys
  | xs, [] => xs
  | x :: xs, y :: ys => (x ++ y) :: zipLevels xs ys

mutual

/-- The addresses of a declaration and of everything inside it, level by level. -/
def levelsFrom (a : Address) : Declaration → List (List Address)
  | ⟨_, ms⟩ => [a] :: levelsMembers a 0 ms

def levelsMembers (a : Address) (i : Nat) : List Declaration → List (List Address)
  | [] => []
  | m :: ms => zipLevels (levelsFrom (a ++ [i]) m) (levelsMembers a (i + 1) ms)

end

/-- All addresses, those nearer to the root first. -/
def breadthFirst (d : Declaration) : List Address := (levelsFrom [] d).flatten

/-- The index of the first entry point among members. -/
def entryPoint? (ms : List Declaration) : Option Nat :=
  ms.findIdx? fun m => m.kind == .entryPoint

/-- The addresses of the declarations that a container exports: the members of its first entry
point, or else its own. -/
def exportsOf (d : Declaration) (a : Address) : List Address :=
  match entryPoint? d.members with
  | none => memberAddresses a d
  | some i =>
    match d.members[i]? with
    | some m => memberAddresses (a ++ [i]) m
    | none => []

end Declaration

end ApiReference
