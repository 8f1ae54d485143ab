import ApiReference.Page.Body

/-!
# The members of a type on its page

Each member has a row in the table of its group, and an own member has details
further down.  Rows and details are made together, name by name, and then sorted
into the groups.
-/

namespace ApiReference.Page

open Declaration Doc Inheritance

/-- The tables of members, in the order of the page. -/
inductive Group where
  | staticEvents | events | staticProperties | properties | staticMethods | methods
deriving DecidableEq, Repr

namespace Group

def all : List Group :=
  [staticEvents, events, staticProperties, properties, staticMethods, methods]

def title : Group → Text
  | staticEvents => "Static Events"
  | events => "Events"
  | staticProperties => "Static Properties"
  | properties => "Properties"
  | staticMethods => "Static Methods"
  | methods => "Methods"

def detailsTitle : Group → Text
  | staticEvents => "Static Event Details"
  | events => "Event Details"
  | staticProperties => "Static Property Details"
  | properties => "Property Details"
  | staticMethods => "Static Method Details"
  | methods => "Method Details"

def columns : Group → List Text
  | staticMethods | methods => ["Method", "Description"]
  | _ => ["Property", "Type", "Description"]

/-- The table that a member is listed in; only methods and properties are listed. -/
def of? (i : Info) : Option Group :=
  if i.kind.isMethod then some (if i.isStatic then staticMethods else methods)
  else if i.kind.isProperty then
    some (match i.isEvent, i.isStatic with
      | true, true => staticEvents
      | true, false => events
      | false, true => staticProperties
      | false, false => properties)
  else none

end Group

/-- A row of a member table, and the details of the member if it is an own one. -/
structure MemberRow where
  group : Group
  cells : List (List Node)
  details : List Node
deriving Repr

namespace Env

/-- The details of an own member: its anchor, its heading and what is said about it. -/
def memberDetails (env : Env) (place : Place) (a : Address) (i : Info) (parents : List Address) :
    Traced (List Node) := do
  let anchor ← env.permit [.anchor ((anchorOf? i).getD [])]
  let title ← env.permit [← heading place i.title 2]
  let body ← env.memberBody ⟨place.file, min (place.level + 2) 5⟩ a i parents
  return anchor ++ title ++ body

/-- The cells of a member; a property has one for its type. -/
def memberCells (env : Env) (file : Text) (a : Address) (i : Info) (parents : List Address) :
    Traced (List (List Node)) := do
  let title := env.titleCell file a i
  if i.kind.isMethod then
    return [title, ← env.descriptionCell file a i parents]
  else do
    let type ← env.typeCell file a i.name i.valueType
    return [title, type, ← env.descriptionCell file a i parents]

/-- The row of a member of a type; `own` tells that it is not inherited. -/
def memberRow? (env : Env) (place : Place) (own : Bool) (a : Address) (parents : List Address) :
    Traced (Option MemberRow) :=
  match env.root.info? a with
  | none => return none
  | some i =>
    match Group.of? i with
    | none => return none
    | some group => do
      let cells ← env.memberCells place.file a i parents
      let details ← if own then env.memberDetails place a i parents else pure []
      return some ⟨group, cells, details⟩

def memberRowsOf (env : Env) (place : Place) (own : Bool) (parents : List Address) :
    List Address → Traced (List MemberRow)
  | [] => return []
  | a :: as => do
    let row? ← env.memberRow? place own a parents
    return row?.toList ++ (← env.memberRowsOf place own parents as)

/-- The rows of a member name: those of the own declarations, or else of the nearest inherited
one. -/
def resolvedRows (env : Env) (place : Place) (r : Resolved) : Traced (List MemberRow) :=
  if r.own.isEmpty then env.memberRowsOf place false r.parents (r.parents.take 1)
  else env.memberRowsOf place true r.parents r.own

def memberRows (env : Env) (place : Place) : List Resolved → Traced (List MemberRow)
  | [] => return []
  | r :: rs => do
    let rows ← env.resolvedRows place r
    return rows ++ (← env.memberRows place rs)

/-- The tables of the groups that have rows. -/
def groupTables (env : Env) (place : Place) (rows : List MemberRow) :
    List Group → Except Fault (List Node)
  | [] => return []
  | g :: gs => do
    let table ← env.tableUnder place g.title g.columns
      ((rows.filter (·.group == g)).map MemberRow.cells)
    return table ++ (← env.groupTables place rows gs)

/-- The details of the groups that have any. -/
def groupDetails (env : Env) (place : Place) (rows : List MemberRow) :
    List Group → Except Fault (List Node)
  | [] => return []
  | g :: gs => do
    let details := (rows.filter (·.group == g)).flatMap MemberRow.details
    let first ← if details.isEmpty then pure [] else env.titled place g.detailsTitle details
    return first ++ (← env.groupDetails place rows gs)

/-- The tables of the members of a class or interface, and then the details of the own ones. -/
def memberTables (env : Env) (place : Place) (a : Address) : Traced (List Node) := do
  let rows ← env.memberRows place (resolvedMembers env.root env.graph a)
  let tables ← env.groupTables place rows Group.all
  return tables ++ (← env.groupDetails place rows Group.all)

end Env

end ApiReference.Page
