import ApiReference.Inheritance.Tree
import ApiReference.Page.Cells

/-!
# What is said about one declaration

The parts of a description in their order: warnings, summary, where the member
comes from, remarks, signature, default value, diagrams and examples, and then the
tables of its kind.  A part that has nothing to say is empty.
-/

namespace ApiReference.Page

open Declaration Doc Inheritance Scope

def betaWarning : Text :=
  "This API is provided as a preview for developers and may change based on feedback that we " ++
    "receive.  Do not use this API in a production environment."

def deprecatedNote : Text := "Warning: This API is now obsolete. "

namespace Env

def betaBox (env : Env) (i : Info) : Except Fault (List Node) :=
  if i.releaseTag = .beta then env.permit [.noteBox [.paragraph [.plainText betaWarning]]]
  else return []

def deprecatedBox (env : Env) (i : Info) : Except Fault (List Node) := do
  match i.comment?.bind Comment.deprecated? with
  | none => return []
  | some block =>
    let content ← env.permit block.content
    env.permit [.noteBox (.paragraph [.plainText deprecatedNote] :: content)]

/-- The remarks of the first comment that has any. -/
def remarks (cs : List Comment) : List Node :=
  match cs.findSome? Comment.remarks? with
  | some block => block.content
  | none => []

def signature (env : Env) (i : Info) : Except Fault (List Node) := do
  if i.excerpt.isEmpty then return []
  return (← env.permit [.caption "Signature:"]) ++
    (← env.permit [.fencedCode i.signature env.language])

/-- The default value that the first comment with one gives, on the line of its caption if it is
one paragraph. -/
def defaultValue (env : Env) (cs : List Comment) : Except Fault (List Node) :=
  match cs.findSome? fun c => (c.blocksOf "defaultValue").head? with
  | none => return []
  | some block =>
    let caption := Node.bold "Default Value:"
    match block.content with
    | [.paragraph inner] => env.permit [.paragraph (caption :: .plainText [' '] :: inner)]
    | nodes => env.permit (.paragraph [caption] :: nodes)

/-- How a type is shown in a diagram: the one it is about in bold, others as links. -/
def treeText (env : Env) (file : Text) (current : Address) : Ref → Node
  | .label name => .plainText name
  | .declaration a =>
    let name := env.root.scopedName a
    if a = current then .bold name else env.link file a name

mutual

/-- A type and the list of those below it. -/
def treeNodes (env : Env) (file : Text) (current : Address) : Tree → Except Fault (List Node)
  | .node item children => do
    let text ← env.grammar.permit .list [env.treeText file current item]
    if children.isEmpty then return text
    let below ← treeList env file current children
    return text ++ (← env.grammar.permit .list [.list below])

def treeList (env : Env) (file : Text) (current : Address) : List Tree → Except Fault (List Node)
  | [] => return []
  | t :: ts => do
    let first ← treeNodes env file current t
    return first ++ (← treeList env file current ts)

end

/-- A diagram with its heading, unless it would show one type only. -/
def diagram (env : Env) (place : Place) (a : Address) (title : Text) (tree : Tree) :
    Except Fault (List Node) := do
  if (env.graph.links? a).isNone || tree.children.isEmpty then return []
  let first ← env.permit [← heading place title 1]
  let list ← treeList env place.file a [tree]
  return first ++ (← env.permit [.list list])

/-- The diagrams of a class or interface. -/
def diagrams (env : Env) (place : Place) (a : Address) (i : Info) : Except Fault (List Node) := do
  let reached (direction : Direction) : Tree := childTree env.graph direction (.declaration a)
  match i.kind with
  | .classType =>
    let classes ← env.diagram place a "Class Hierarchy" (classTree env.graph a)
    return classes ++
      (← env.diagram place a "Implements Interfaces" (reached .parentInterfaces))
  | .interfaceType =>
    let parents ← env.diagram place a "Implements Interfaces" (reached .parentInterfaces)
    return parents ++ (← env.diagram place a "Implemented By" (reached .childInterfaces))
  | _ => return []

/-- Numbered examples under headings; a single one has no number. -/
def examplesFrom (env : Env) (place : Place) (numbered : Bool) :
    Nat → List Comment.Block → Except Fault (List Node)
  | _, [] => return []
  | n, block :: blocks => do
    let title : Text := if numbered then "Example " ++ Text.ofNat n else "Example"
    let first ← env.titled place title block.content
    return first ++ (← env.examplesFrom place numbered (n + 1) blocks)

def examples (env : Env) (place : Place) (i : Info) : Except Fault (List Node) :=
  match i.comment? with
  | none => return []
  | some c =>
    let blocks := c.blocksOf "example"
    env.examplesFrom place (decide (1 < blocks.length)) 1 blocks

/-- What is said about a declaration of any kind, before the tables of its kind. -/
def front (env : Env) (place : Place) (a : Address) (i : Info) (parents : List Address) :
    Except Fault (List Node) := do
  let cs := env.comments i parents
  let beta ← env.betaBox i
  let deprecated ← env.deprecatedBox i
  let summary ← env.permit (summary cs)
  let note ← env.permit (env.inheritanceNote place.file a parents)
  let remarks ← env.permit (remarks cs)
  let signature ← env.signature i
  let value ← env.defaultValue cs
  let diagrams ← env.diagrams place a i
  let examples ← env.examples place i
  return beta ++ deprecated ++ summary ++ note ++ remarks ++ signature ++ value ++ diagrams ++
    examples

/-- A table with its heading, unless it has no rows. -/
def tableUnder (env : Env) (place : Place) (title : Text) (columns : List Text)
    (rows : List (List (List Node))) : Except Fault (List Node) :=
  if rows.isEmpty then return []
  else env.titled place title [.table (Node.titles columns) rows]

/-- What the comment of a callable says about a parameter. -/
def parameterDescription (env : Env) (i : Info) (p : Parameter) : Except Fault (List Node) :=
  match i.comment?.bind fun c => c.paramBlock? p.name with
  | some block => env.permit block.content
  | none => return []

def parameterRows (env : Env) (place : Place) (a : Address) (i : Info) :
    List Parameter → Traced (List (List (List Node)))
  | [] => return []
  | p :: ps => do
    let description ← env.parameterDescription i p
    let type ← env.typeCell place.file a i.name p.type
    let row := [Node.cell (.plainText p.name), type, description]
    return row :: (← env.parameterRows place a i ps)

def returnText (i : Info) : Node :=
  let type := Text.trim i.returnType
  if type.isEmpty then .emphasis [.plainText "(not declared)"] false false else .codeSpan type

/-- The parameters of a callable and what it returns. -/
def parameterTables (env : Env) (place : Place) (a : Address) (i : Info) :
    Traced (List Node) := do
  let rows ← env.parameterRows place a i i.parameters
  let table ← env.tableUnder place "Parameters" ["Parameter", "Type", "Description"] rows
  if !i.kind.returnsValue then return table
  let caption ← env.permit [.caption "Returns:"]
  let type ← env.permit [.paragraph [returnText i]]
  let block ← env.permit (((i.comment?.bind Comment.returns?).map Comment.Block.content).getD [])
  return table ++ caption ++ type ++ block

def enumRows (env : Env) (place : Place) :
    List Address → Except Fault (List (List (List Node)))
  | [] => return []
  | a :: as => do
    match env.root.info? a with
    | none => env.enumRows place as
    | some i =>
      let description ← env.descriptionCell place.file a i []
      let row := [Node.cell (.plainText i.title), Node.cell (.codeSpan i.initializer), description]
      return row :: (← env.enumRows place as)

/-- The members of an enumeration with their values. -/
def enumTable (env : Env) (place : Place) (a : Address) : Except Fault (List Node) := do
  let rows ← env.enumRows place (env.root.membersAt a)
  env.tableUnder place "Enumeration Members" ["Member", "Value", "Description"] rows

/-- The tables of declarations that contain no others with pages or details of their own. -/
def simpleTables (env : Env) (place : Place) (a : Address) (i : Info) : Traced (List Node) :=
  match i.kind with
  | .method | .methodSignature | .function => env.parameterTables place a i
  | .enumType => env.enumTable place a
  | .property | .propertySignature | .typeAlias | .variableDecl => return []
  | kind => Traced.fail (.unsupportedDeclaration kind)

/-- What is said about a member of a type. -/
def memberBody (env : Env) (place : Place) (a : Address) (i : Info) (parents : List Address) :
    Traced (List Node) := do
  let front ← env.front place a i parents
  return front ++ (← env.simpleTables place a i)

end Env

end ApiReference.Page
