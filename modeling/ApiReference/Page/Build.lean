import ApiReference.Page.Members

/-!
# Building pages

A package or namespace lists what it exports, and every declaration that it lists
has a page of its own.  `sheets` builds them by recursion on the tree, listed ones
before the container.
-/

namespace ApiReference.Page

open Declaration Doc

/-- The page of a declaration. -/
structure Sheet where
  item : Address
  path : Text
  nodes : List Node
deriving Repr

/-- The kinds that are listed on the page of their container, in the order of their tables. -/
def listedKinds : List Declaration.Kind :=
  [.classType, .enumType, .function, .interfaceType, .nameSpace, .variableDecl, .typeAlias]

/-- The title of the table of a kind, and that of its first column. -/
def tableTitles : Declaration.Kind → Text × Text
  | .classType => ("Classes", "Class")
  | .enumType => ("Enumerations", "Enumeration")
  | .function => ("Functions", "Function")
  | .interfaceType => ("Interfaces", "Interface")
  | .nameSpace => ("Namespaces", "Namespace")
  | .variableDecl => ("Variables", "Variable")
  | .typeAlias => ("Type Aliases", "Type Alias")
  | _ => ([], [])

/-- The word in front of the name in the heading of a page. -/
def headingWord? : Declaration.Kind → Option Text
  | .classType => some "Class"
  | .enumType => some "Enum"
  | .interfaceType => some "Interface"
  | .method | .methodSignature => some "Method"
  | .function => some "Function"
  | .nameSpace => some "Namespace"
  | .property | .propertySignature => some "Property"
  | .typeAlias => some "Type"
  | .variableDecl => some "Variable"
  | _ => none

/-- Kinds whose page lists what they export. -/
def isContainer (kind : Declaration.Kind) : Bool := kind == .package || kind == .nameSpace

/-- A declaration on the page of its container: the cells of its row and the pages built for it. -/
structure Listed where
  kind : Declaration.Kind
  cells : List (List Node)
  sheets : List Sheet
deriving Repr

namespace Env

/-- The containers on the way to a declaration; the package is called home. -/
def crumbs (env : Env) (file : Text) (a : Address) : List Node :=
  let links := (hierarchy a).filterMap fun b =>
    match env.root.info? b with
    | none => none
    | some i =>
      if i.kind = .model ∨ i.kind = .entryPoint then none
      else some (env.link file b (if i.kind = .package then "Home" else i.name))
  links.intersperse (.plainText " > ")

/-- The heading of a page. -/
def pageTitle (env : Env) (a : Address) (i : Info) : Except Fault Text :=
  if i.kind = .package then return i.name
  else match headingWord? i.kind with
    | some word => return word ++ ' ' :: env.root.scopedName a
    | none => .error (.unsupportedDeclaration i.kind)

/-- The tables of what a container lists. -/
def listedTables (env : Env) (place : Place) (listed : List Listed) :
    List Declaration.Kind → Except Fault (List Node)
  | [] => return []
  | kind :: kinds => do
    let titles := tableTitles kind
    let table ← env.tableUnder place titles.1 [titles.2, "Description"]
      ((listed.filter (·.kind == kind)).map Listed.cells)
    return table ++ (← env.listedTables place listed kinds)

/-- What is said about a declaration, and the pages built for what it lists. -/
def body (env : Env) (place : Place) (a : Address) (i : Info) (parents : List Address)
    (listed : Traced (List Listed)) : Traced (List Node × List Sheet) := do
  let front ← env.front place a i parents
  if isContainer i.kind then
    let listed ← listed
    let tables ← env.listedTables place listed listedKinds
    return (front ++ tables, listed.flatMap Listed.sheets)
  else if i.kind.isInheriting then return (front ++ (← env.memberTables place a), [])
  else return (front ++ (← env.simpleTables place a i), [])

/-- The page of a declaration, after the pages of what it lists. -/
def sheet (env : Env) (a : Address) (i : Info) (listed : Text → Traced (List Listed)) :
    Traced (List Sheet) := do
  let path := (env.router.locate env.root a).path
  let crumbs ← env.addInline [] (env.crumbs path a)
  let title ← env.permit [.heading (← env.pageTitle a i) .top]
  let (body, sheets) ← env.body ⟨path, 1⟩ a i [] (listed path)
  let nodes := crumbs ++ title ++ body
  env.grammar.validate (.body nodes)
  return sheets ++ [⟨a, path, nodes⟩]

mutual

/-- The pages of a declaration and of all that it lists, listed ones first. -/
def sheets (env : Env) (a : Address) : Declaration → Traced (List Sheet)
  | ⟨i, ms⟩ => env.sheet a i fun path =>
    match entryRows env ⟨path, 1⟩ a 0 ms with
    | some rows => rows
    | none => memberList env ⟨path, 1⟩ a 0 ms

/-- The rows of the members of the first entry point among members. -/
def entryRows (env : Env) (place : Place) (a : Address) (n : Nat) :
    List Declaration → Option (Traced (List Listed))
  | [] => none
  | ⟨i, ms⟩ :: rest =>
    if i.kind = .entryPoint then some (memberList env place (a ++ [n]) 0 ms)
    else entryRows env place a (n + 1) rest

def memberList (env : Env) (place : Place) (a : Address) (n : Nat) :
    List Declaration → Traced (List Listed)
  | [] => return []
  | m :: ms =>
    if listedKinds.contains m.kind then do
      let b := a ++ [n]
      let description ← env.descriptionCell place.file b m.toInfo []
      let built ← sheets env b m
      let rest ← memberList env place a (n + 1) ms
      return ⟨m.kind, [env.titleCell place.file b m.toInfo, description], built⟩ :: rest
    else memberList env place a (n + 1) ms

end

/-- The rows and pages of what a container exports. -/
def listedMembers (env : Env) (place : Place) (a : Address) (ms : List Declaration) :
    Traced (List Listed) :=
  match env.entryRows place a 0 ms with
  | some rows => rows
  | none => env.memberList place a 0 ms

end Env

end ApiReference.Page
