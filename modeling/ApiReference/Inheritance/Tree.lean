import ApiReference.Inheritance.Graph

/-!
# Hierarchy trees

The trees of the diagrams on the pages of classes and interfaces: all that is
reached in one direction, and the chain of parent classes above it.  Cycles are
cut where a declaration would come below itself.
-/

namespace ApiReference.Inheritance

open Declaration Scope

/-- A type with the types below it in a diagram. -/
inductive Tree where
  | node (item : Ref) (children : List Tree)
deriving Repr

namespace Tree

def item : Tree → Ref
  | node item _ => item

def children : Tree → List Tree
  | node _ children => children

def leaf (item : Ref) : Tree := node item []

end Tree

/-- The links that a diagram follows. -/
inductive Direction where
  | childClasses | childInterfaces | parentInterfaces
deriving DecidableEq, Repr

def Links.follow (l : Links) : Direction → List Ref
  | .childClasses => l.childClasses.map .declaration
  | .childInterfaces => l.childInterfaces.map .declaration
  | .parentInterfaces => l.parentInterfaces

/-- Labels are shown wherever they occur, declarations not below themselves. -/
def isNew (seen : List Address) : Ref → Bool
  | .declaration a => !seen.contains a
  | .label _ => true

/-- The tree of what is reached from a type below the types seen. -/
def childTreeFrom (g : Graph) (direction : Direction) (seen : List Address) (ref : Ref) : Tree :=
  match ref with
  | .label name => .leaf (.label name)
  | .declaration a =>
    if _ha : a ∈ seen then .leaf (.declaration a)
    else match _hl : g.links? a with
      | none => .leaf (.declaration a)
      | some l => .node (.declaration a)
        (((l.follow direction).filter (isNew (a :: seen))).map
          (childTreeFrom g direction (a :: seen)))
termination_by g.unvisited seen
decreasing_by
  exact g.unvisited_lt (fun b hb => List.mem_cons_of_mem _ hb) (by simp [_hl]) _ha
    (List.mem_cons_self ..)

/-- The tree of all that is reached from a type in one direction. -/
def childTree (g : Graph) (direction : Direction) (ref : Ref) : Tree :=
  childTreeFrom g direction [] ref

/-- A tree among the child classes of the type above it: in its place if it is one of them, else
behind them. -/
def graft (children : List Address) (tree : Tree) : List Tree :=
  if (children.map Ref.declaration).contains tree.item then
    children.map fun a => if tree.item = .declaration a then tree else .leaf (.declaration a)
  else children.map (fun a => .leaf (.declaration a)) ++ [tree]

/-- Puts a tree below a type and the chain of parent classes of that type. The chain ends at a label
or where it repeats. -/
def parentTreeFrom (g : Graph) (seen : List Address) (ref : Ref) (tree : Tree) : Tree :=
  match ref with
  | .label name => .node (.label name) [tree]
  | .declaration a =>
    if _ha : a ∈ seen then tree
    else match _hl : g.links? a with
      | none => .node (.declaration a) [tree]
      | some l =>
        let above := Tree.node (.declaration a) (graft l.childClasses tree)
        match l.parentClass? with
        | none => above
        | some parent => parentTreeFrom g (a :: seen) parent above
termination_by g.unvisited seen
decreasing_by
  exact g.unvisited_lt (fun b hb => List.mem_cons_of_mem _ hb) (by simp [_hl]) _ha
    (List.mem_cons_self ..)

def parentTree (g : Graph) (ref : Ref) (tree : Tree) : Tree := parentTreeFrom g [] ref tree

/-- The class tree around a class: its chain of parents and everything below it. -/
def classTree (g : Graph) (a : Address) : Tree :=
  let tree := childTree g .childClasses (.declaration a)
  match (g.links? a).bind Links.parentClass? with
  | some parent => parentTree g parent tree
  | none => tree

end ApiReference.Inheritance
