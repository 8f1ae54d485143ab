import ApiReference.Inheritance.Graph

/-!
# Own and inherited members

Ancestors are collected level by level, each once, so that nearer ones come first.
Own and inherited members are then grouped by name and joined in the order of the
names.
-/

namespace ApiReference.Inheritance

open Declaration Scope

/-- The declarations referred to that were not visited before, each once. -/
def newAncestors (visited : List Address) : List Ref → List Address
  | [] => []
  | .label _ :: refs => newAncestors visited refs
  | .declaration a :: refs =>
    if visited.contains a then newAncestors visited refs
    else a :: newAncestors (a :: visited) refs

theorem newAncestors_not_mem {visited : List Address} {refs : List Ref} {a : Address}
    (h : a ∈ newAncestors visited refs) : a ∉ visited := by
  induction refs generalizing visited with
  | nil => simp [newAncestors] at h
  | cons ref refs ih =>
    cases ref with
    | label name => exact ih h
    | declaration b =>
      simp only [newAncestors] at h
      split at h
      · exact ih h
      · rename_i hb
        simp only [List.contains_eq_mem, decide_eq_true_eq] at hb
        rcases List.mem_cons.1 h with rfl | h
        · exact hb
        · exact fun hv => ih h (List.mem_cons_of_mem _ hv)

/-- The ancestors reached from the given ones level by level, without those visited. -/
def ancestorsFrom (g : Graph) (visited : List Address) (current : List Ref) : List Address :=
  let found := newAncestors visited current
  if _h : found = [] then []
  else found ++ ancestorsFrom g (found ++ visited) (found.flatMap g.parentsOf)
termination_by (g.unvisited visited, current.length)
decreasing_by
  by_cases hk : ∃ a ∈ newAncestors visited current, (g.links? a).isSome
  · obtain ⟨a, ha, hk⟩ := hk
    apply Prod.Lex.left
    exact g.unvisited_lt (fun b hb => List.mem_append_right _ hb) hk (newAncestors_not_mem ha)
      (List.mem_append_left _ ha)
  · have hnil : (newAncestors visited current).flatMap g.parentsOf = [] := by
      rw [List.flatMap_eq_nil_iff]
      intro a ha
      have : g.links? a = none := by
        cases hl : g.links? a with
        | none => rfl
        | some l => exact absurd ⟨a, ha, by simp [hl]⟩ hk
      simp [Graph.parentsOf, this]
    have hpos : 0 < current.length := by
      cases current with
      | nil => simp [newAncestors, found] at _h
      | cons _ _ => simp
    have hle : g.unvisited (newAncestors visited current ++ visited) ≤ g.unvisited visited :=
      g.unvisited_le fun b hb => List.mem_append_right _ hb
    simp only [hnil, List.length_nil]
    rcases Nat.lt_or_eq_of_le hle with h | h
    · exact Prod.Lex.left _ _ h
    · rw [h]
      exact Prod.Lex.right _ hpos

/-- The strict ancestors of a declaration, nearer ones first. -/
def ancestors (g : Graph) (a : Address) : List Address := ancestorsFrom g [a] (g.parentsOf a)

/-- Adds an address to those of its name. -/
def addNamed (name : Text) (a : Address) : List (Text × List Address) → List (Text × List Address)
  | [] => [(name, [a])]
  | entry :: groups =>
    if entry.1 = name then (name, entry.2 ++ [a]) :: groups
    else entry :: addNamed name a groups

/-- Declarations by name, in the order the names are first met. -/
def groupByName (root : Declaration) (as : List Address) : List (Text × List Address) :=
  as.foldl (fun groups a => addNamed (root.nameAt a) a groups) []

/-- The members of the ancestors of a declaration by name, nearest ancestor first. -/
def inherited (root : Declaration) (g : Graph) (a : Address) : List (Text × List Address) :=
  groupByName root ((ancestors g a).flatMap root.membersAt)

/-- Inserts a group in front of the first one whose name does not come before its own. -/
def insertByName (entry : Text × List Address) :
    List (Text × List Address) → List (Text × List Address)
  | [] => [entry]
  | other :: groups =>
    if Text.lt other.1 entry.1 then other :: insertByName entry groups
    else entry :: other :: groups

def sortByName : List (Text × List Address) → List (Text × List Address)
  | [] => []
  | entry :: groups => insertByName entry (sortByName groups)

/-- One member name of a type: its own declarations and those of its ancestors. -/
structure Resolved where
  name : Text
  own : List Address
  parents : List Address
deriving DecidableEq, Repr

/-- The declaration shown for a name: the first own one, or else the nearest inherited one. -/
def Resolved.shown? (r : Resolved) : Option Address := (r.own ++ r.parents).head?

/-- Joins own and inherited groups, both in the order of their names. -/
def joinByName : (own inherited : List (Text × List Address)) → List Resolved
  | [], inherited => inherited.map fun e => ⟨e.1, [], e.2⟩
  | own, [] => own.map fun e => ⟨e.1, e.2, []⟩
  | o :: own, i :: inherited =>
    if Text.lt i.1 o.1 then ⟨i.1, [], i.2⟩ :: joinByName (o :: own) inherited
    else if Text.lt o.1 i.1 then ⟨o.1, o.2, []⟩ :: joinByName own (i :: inherited)
    else ⟨o.1, o.2, i.2⟩ :: joinByName own inherited
termination_by own inherited => own.length + inherited.length

/-- The members of a type by name: one entry for each name, in the order of the names. -/
def resolvedMembers (root : Declaration) (g : Graph) (a : Address) : List Resolved :=
  joinByName (sortByName (groupByName root (root.membersAt a)))
    (sortByName (inherited root g a))

/-- How a member relates to one of its ancestors' members. -/
inductive Relation where
  | inherits | fulfils | overrides
deriving DecidableEq, Repr

/-- A member stands in for a signature when it is the real thing of the same sort. -/
def relation (root : Declaration) (member parent : Address) : Relation :=
  if member = parent then .inherits
  else match root.kind? member, root.kind? parent with
    | some .method, some .methodSignature | some .property, some .propertySignature => .fulfils
    | _, _ => .overrides

/-- The words in front of the name of the ancestor. -/
def Relation.label : Relation → Text
  | .inherits => "Inherited from "
  | .fulfils => "Implements "
  | .overrides => "Overrides "

end ApiReference.Inheritance
