import ApiReference.Scope.BaseType

/-!
# Who extends whom

The graph is built in two passes: each class and interface gets its parents from
its clauses, and is then entered as a child with those that are declared.  Walks
over the graph end because every step visits something new (`unvisited_lt`).
-/

namespace ApiReference.Inheritance

open Declaration Scope

/-- The types that a class or interface extends or implements, and those that do so with it. -/
structure Links where
  parentClass? : Option Ref
  childClasses : List Address
  parentInterfaces : List Ref
  childInterfaces : List Address
deriving DecidableEq, Repr

namespace Links

/-- The parent class, if any, and then the parent interfaces. -/
def parents (l : Links) : List Ref := l.parentClass?.toList ++ l.parentInterfaces

/-- Adds a child of the given kind unless it is there. -/
def addChild (kind? : Option Kind) (child : Address) (l : Links) : Links :=
  if kind? = some .classType then
    if l.childClasses.contains child then l
    else { l with childClasses := l.childClasses ++ [child] }
  else if l.childInterfaces.contains child then l
  else { l with childInterfaces := l.childInterfaces ++ [child] }

end Links

/-- The links of every class and interface, containers before their members. -/
abbrev Graph := List (Address × Links)

namespace Graph

def links? (g : Graph) (a : Address) : Option Links := g.lookup a

def parentsOf (g : Graph) (a : Address) : List Ref :=
  match g.links? a with
  | some l => l.parents
  | none => []

/-- The number of declarations in the graph that are not among those visited. -/
def unvisited (g : Graph) (visited : List Address) : Nat :=
  g.countP fun entry => entry.1 ∉ visited

theorem unvisited_le (g : Graph) {visited visited' : List Address}
    (h : ∀ a ∈ visited, a ∈ visited') : g.unvisited visited' ≤ g.unvisited visited := by
  apply List.countP_mono_left
  intro entry _ he
  simp only [decide_eq_true_eq] at he ⊢
  exact fun hv => he (h _ hv)

theorem unvisited_lt (g : Graph) {visited visited' : List Address} {a : Address}
    (h : ∀ b ∈ visited, b ∈ visited') (hk : (g.links? a).isSome) (ha : a ∉ visited)
    (ha' : a ∈ visited') : g.unvisited visited' < g.unvisited visited := by
  induction g with
  | nil => simp [links?] at hk
  | cons entry g ih =>
    have hle := unvisited_le g h
    simp only [unvisited, List.countP_cons, decide_eq_true_eq] at ih hle ⊢
    by_cases he : a = entry.1
    · subst he
      rw [if_neg (fun hn => hn ha'), if_pos ha]
      omega
    · have hk' : (links? g a).isSome := by
        simpa [links?, he] using hk
      have hlt := ih hk'
      by_cases hv' : entry.1 ∈ visited'
      · rw [if_neg (fun hn => hn hv')]
        split <;> omega
      · rw [if_pos hv', if_pos (fun hv => hv' (h _ hv))]
        omega

/-- Changes the links of one declaration. -/
def modify (f : Links → Links) (a : Address) (g : Graph) : Graph :=
  g.map fun entry => if entry.1 = a then (entry.1, f entry.2) else entry

end Graph

/-- The types that clauses of a declaration name. -/
def baseTypes (root : Declaration) (types : TypeMap) (a : Address) : List Text → Noted (List Ref)
  | [] => return []
  | clause :: clauses => do
    let ref? ← baseType root types a clause
    return ref?.toList ++ (← baseTypes root types a clauses)

/-- The parents of a class or interface. An interface has parent interfaces only. -/
def upwardLinks (root : Declaration) (types : TypeMap) (a : Address) (i : Info) :
    Noted Links := do
  if i.kind = .classType then
    let parents ← baseTypes root types a (i.extendsTypes.take 1)
    return ⟨parents.head?, [], ← baseTypes root types a i.implementsTypes, []⟩
  else return ⟨none, [], ← baseTypes root types a i.extendsTypes, []⟩

/-- The parents of the classes and interfaces among some addresses. -/
def upward (root : Declaration) (types : TypeMap) : List Address → Noted Graph
  | [] => return []
  | a :: rest =>
    match root.get? a with
    | none => upward root types rest
    | some d =>
      if d.kind.isInheriting then do
        let l ← upwardLinks root types a d.toInfo
        return (a, l) :: (← upward root types rest)
      else upward root types rest

/-- Enters a child with each of its parents that is declared. -/
def connect (kind? : Option Kind) (child : Address) (parents : List Ref) (g : Graph) : Graph :=
  (parents.filterMap Ref.address?).foldl (fun g a => g.modify (Links.addChild kind? child) a) g

/-- Enters every declaration of a graph with its parents. -/
def downward (root : Declaration) (g : Graph) : Graph :=
  g.foldl (fun known entry => connect (root.kind? entry.1) entry.1 entry.2.parents known) g

/-- The inheritance graph of a tree. -/
def graphOf (root : Declaration) (types : TypeMap) : Noted Graph :=
  return downward root (← upward root types root.walk)

end ApiReference.Inheritance
