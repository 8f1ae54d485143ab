import ApiReference.Declaration.Signature
import ApiReference.Diagnostics.Traced
import ApiReference.Doc.Grammar
import ApiReference.Inheritance.Members
import ApiReference.Page.Router

/-!
# Links and table cells

The environment that pages are built in, and the pieces that all of them are made
of.  Every node goes through the grammar before it is part of a page.
-/

namespace ApiReference.Page

open Declaration Doc Inheritance Scope

/-- What the pages of a package are built with. -/
structure Env where
  root : Declaration
  types : TypeMap
  graph : Graph
  router : Router
  grammar : Grammar
  /-- The language of the signatures, as it is configured. -/
  language : Json

/-- The page being built and the level of the headings around what is being built. -/
structure Place where
  file : Text
  level : Int
deriving DecidableEq, Repr

namespace Env

/-- Nodes that may stand in a section. -/
def permit (env : Env) (nodes : List Node) : Except Fault (List Node) :=
  env.grammar.permit .body nodes

/-- The nodes of a paragraph added at the end of a section. -/
def addInline (env : Env) : List Node → List Node → Except Fault (List Node)
  | nodes, [] => .ok nodes
  | nodes, n :: ns => do
    env.addInline (← (env.grammar.appendInParagraph .body nodes n).result) ns

def link (env : Env) (file : Text) (target : Address) (text : Text) : Node :=
  .link (env.router.linkFrom env.root file target) text

/-- Names the nearest ancestor's declaration that a member goes back to. -/
def inheritanceNote (env : Env) (file : Text) (a : Address) (parents : List Address) :
    List Node :=
  match parents with
  | [] => []
  | parent :: _ =>
    [.paragraph [.emphasis
      [.plainText (relation env.root a parent).label,
        env.link file parent (env.root.nameAt parent)]
      false true]]

/-- The comments of a declaration and of those that it goes back to, nearest first. -/
def comments (env : Env) (i : Info) (parents : List Address) : List Comment :=
  (i :: parents.filterMap env.root.info?).filterMap Info.comment?

/-- The first summary that is not empty. -/
def summary (cs : List Comment) : List Node :=
  match cs.find? fun c => !c.summary.isEmpty with
  | some c => c.summary
  | none => []

/-- A link to a declaration, with its parameters if it takes any. -/
def titleCell (env : Env) (file : Text) (a : Address) (i : Info) : List Node :=
  Node.cell (env.link file a i.title)

def betaMark : List Node :=
  [.emphasis [.plainText "(BETA)"] true true, .plainText [' ']]

/-- Adds a section whose first paragraph goes on with the last one there. -/
def merge (env : Env) (nodes : List Node) : List Node → Except Fault (List Node)
  | .paragraph inner :: rest => do
    return (← env.addInline nodes inner) ++ (← env.permit rest)
  | rest => return nodes ++ (← env.permit rest)

/-- What a table says about a declaration: whether it may still change, its summary, and where it
comes from. -/
def descriptionCell (env : Env) (file : Text) (a : Address) (i : Info)
    (parents : List Address) : Except Fault (List Node) := do
  let nodes ← env.addInline [] (if i.releaseTag = .beta then betaMark else [])
  let nodes ← env.merge nodes (summary (env.comments i parents))
  return nodes ++ (← env.permit (env.inheritanceNote file a parents))

/-- A type, linked if it is the name of one of the package. -/
def typeCell (env : Env) (file : Text) (origin : Address) (owner type : Text) :
    Traced (List Node) := do
  let text := dedent type
  if text.isEmpty then return []
  match resolve env.root env.types origin text with
  | some target => env.addInline [] [env.link file target text]
  | none =>
    Noted.note (.unlinkableType text owner)
    env.addInline [] [.codeSpan text]

/-- A heading below the level of a place. -/
def heading (place : Place) (title : Text) (depth : Int) : Except Fault Node :=
  let level := min (place.level + depth) 5
  match HeadingLevel.ofInt? level with
  | some l => .ok (.heading title l)
  | none => .error (.headingLevel level)

/-- A heading followed by the nodes under it. -/
def titled (env : Env) (place : Place) (title : Text) (nodes : List Node) :
    Except Fault (List Node) := do
  return (← env.permit [← heading place title 1]) ++ (← env.permit nodes)

end Env

end ApiReference.Page
