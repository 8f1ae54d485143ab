import ApiReference.Diagnostics.Traced
import ApiReference.Text.Blank

/-!
# Links to declarations

A reference in a comment becomes a link, or nothing with a notice of the reason.
This is done for a whole tree before it is written, in the order of writing, and
so is the search for nodes that cannot be written at all.
-/

namespace ApiReference.Markdown

open Doc

/-- Where a reference leads. -/
structure Target where
  /-- The link destination; without one the reference is dropped. -/
  file? : Option Text
  name : Text
deriving DecidableEq, Repr

/-- How the references of a page are found; a reference may have no target for some reason. -/
abbrev Resolver := Text → Except Text Target

/-- A link tag that is written as nothing. -/
def deadLink : Node := .linkTag none none none

/-- The link a reference is replaced by, with `label?` as its text unless that is empty. -/
def linkTo (reference : Text) (label? : Option Text) (target : Target) : Noted Node :=
  match target.file? with
  | none | some [] => return deadLink
  | some file =>
    let label := match label? with
      | none | some [] => target.name
      | some label => label
    if label.isEmpty then do
      Noted.note (.noLinkText reference)
      return deadLink
    else return .link file label

/-- The link that takes the place of a reference. -/
def resolveLink (resolver? : Option Resolver) (reference : Text) (label? : Option Text) :
    Noted Node :=
  match resolver? with
  | none => do
    Noted.note (.noResolver reference)
    return deadLink
  | some resolver =>
    match resolver reference with
    | .error reason => do
      Noted.note (.unresolvedReference reason)
      return deadLink
    | .ok target => linkTo reference label? target

/-- A walk over a tree in the order of writing; its state tells whether it is inside a table. -/
abbrev Walk := StateT Bool Traced

/-- Whether a fence can be opened with a language: with a text, or with what counts as absent. -/
def opensFence : Json → Bool
  | .text _ => true
  | language => !language.isPresent

/-- Refuses code outside a table whose language cannot stand behind a fence. -/
def checkFence (language : Json) : Walk Unit := do
  if !(← get) && !opensFence language then throw .wrongType

mutual

/-- Replaces the references of a tree by links. Rows and cells outside a table are refused. The end
of a table ends every table around it as well. -/
def resolveLinks (resolver? : Option Resolver) : Node → Walk Node
  | .linkTag (some (c :: reference)) _ label? => resolveLink resolver? (c :: reference) label?
  | .fencedCode code language => do
    checkFence language
    return .fencedCode code language
  | .body ns => return .body (← resolveAll resolver? ns)
  | .paragraph ns => return .paragraph (← resolveAll resolver? ns)
  | .list ns => return .list (← resolveAll resolver? ns)
  | .emphasis ns bold italic => return .emphasis (← resolveAll resolver? ns) bold italic
  | .noteBox ns => return .noteBox (← resolveAll resolver? ns)
  | .table header rows => do
    set true
    let header ← resolveCells resolver? header
    let rows ← resolveRows resolver? rows
    set false
    return .table header rows
  | .tableCell _ => throw (.unsupportedNode .tableCell)
  | .tableRow _ => throw (.unsupportedNode .tableRow)
  | node => return node

def resolveAll (resolver? : Option Resolver) : List Node → Walk (List Node)
  | [] => return []
  | n :: ns => do
    let n ← resolveLinks resolver? n
    return n :: (← resolveAll resolver? ns)

def resolveCells (resolver? : Option Resolver) : List (List Node) → Walk (List (List Node))
  | [] => return []
  | c :: cs => do
    let c ← resolveAll resolver? c
    return c :: (← resolveCells resolver? cs)

def resolveRows (resolver? : Option Resolver) :
    List (List (List Node)) → Walk (List (List (List Node)))
  | [] => return []
  | r :: rs => do
    let r ← resolveCells resolver? r
    return r :: (← resolveRows resolver? rs)

end

/-- A tree with links in place of its references. -/
def linked (resolver? : Option Resolver) (node : Node) : Traced Node :=
  (resolveLinks resolver? node).run' false

end ApiReference.Markdown
