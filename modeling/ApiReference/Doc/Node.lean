import ApiReference.Json.Basic

/-!
# Document nodes

Comments and pages are trees of the same nodes.  The sections inside note boxes
and table cells are part of those nodes, so a tree cannot hold anything else
there, and the level of a heading is a number with its bounds.
-/

namespace ApiReference.Doc

/-- The depth of a heading, from one to five. -/
structure HeadingLevel where
  val : Nat
  one_le : 1 ≤ val
  le_five : val ≤ 5
deriving DecidableEq, Repr

namespace HeadingLevel

def ofInt? (n : Int) : Option HeadingLevel :=
  if h : 1 ≤ n ∧ n ≤ 5 then some ⟨n.toNat, by omega, by omega⟩ else none

def top : HeadingLevel := ⟨1, by decide, by decide⟩

@[simp] theorem ofInt?_isSome {n : Int} : (ofInt? n).isSome = true ↔ 1 ≤ n ∧ n ≤ 5 := by
  by_cases h : 1 ≤ n ∧ n ≤ 5 <;> simp [ofInt?, h]

end HeadingLevel

/-- The kinds of document nodes. -/
inductive Kind where
  | body | paragraph | plainText | escapedText | codeSpan | fencedCode | linkTag | softBreak
  | heading | list | noteBox | table | tableRow | tableCell | anchor | emphasis
deriving DecidableEq, Repr

namespace Kind

/-- Every kind with the name that documents and messages call it by. -/
def names : List (Text × Kind) := [
  ("Section", body), ("Paragraph", paragraph), ("PlainText", plainText),
  ("EscapedText", escapedText), ("CodeSpan", codeSpan), ("FencedCode", fencedCode),
  ("LinkTag", linkTag), ("SoftBreak", softBreak), ("Heading", heading), ("List", list),
  ("NoteBox", noteBox), ("Table", table), ("TableRow", tableRow), ("TableCell", tableCell),
  ("Anchor", anchor), ("EmphasisSpan", emphasis)]

def ofName? (name : Text) : Option Kind := names.lookup name

def name (kind : Kind) : Text :=
  match names.find? (·.2 == kind) with
  | some entry => entry.1
  | none => []

theorem ofName?_name (kind : Kind) : ofName? kind.name = some kind := by
  cases kind <;> decide

end Kind

/-- A node of a parsed comment or of a page. A note box or table cell holds the nodes of one
section; a table row is the list of its cells. The language of fenced code may be any value, since
that of signatures is taken from a configuration as it stands. -/
inductive Node where
  | plainText (text : Text)
  | escapedText (encoded decoded : Text)
  | codeSpan (code : Text)
  | fencedCode (code : Text) (language : Json)
  | linkTag (reference? url? text? : Option Text)
  | softBreak
  | heading (title : Text) (level : HeadingLevel)
  | anchor (id : Text)
  | emphasis (nodes : List Node) (bold italic : Bool)
  | paragraph (nodes : List Node)
  | body (nodes : List Node)
  | list (nodes : List Node)
  | noteBox (content : List Node)
  | tableCell (content : List Node)
  | tableRow (cells : List (List Node))
  | table (header : List (List Node)) (rows : List (List (List Node)))
deriving Repr

/-- The mark in front of a code block and behind it. -/
def fence : Text := ['\x60', '\x60', '\x60']

namespace Node

def kind : Node → Kind
  | plainText _ => .plainText
  | escapedText _ _ => .escapedText
  | codeSpan _ => .codeSpan
  | fencedCode _ _ => .fencedCode
  | linkTag _ _ _ => .linkTag
  | softBreak => .softBreak
  | heading _ _ => .heading
  | anchor _ => .anchor
  | emphasis _ _ _ => .emphasis
  | paragraph _ => .paragraph
  | body _ => .body
  | list _ => .list
  | noteBox _ => .noteBox
  | tableCell _ => .tableCell
  | tableRow _ => .tableRow
  | table _ _ => .table

/-- The nodes that a section, paragraph, list or emphasis holds. -/
def nodes? : Node → Option (List Node)
  | paragraph ns | body ns | list ns | emphasis ns _ _ => some ns
  | _ => none

/-- The node with other nodes in it; a node that holds none stays. -/
def withNodes (node : Node) (nodes : List Node) : Node :=
  match node with
  | paragraph _ => paragraph nodes
  | body _ => body nodes
  | list _ => list nodes
  | emphasis _ bold italic => emphasis nodes bold italic
  | other => other

def bold (text : Text) : Node := emphasis [plainText text] true false

/-- A paragraph of bold text. -/
def caption (text : Text) : Node := paragraph [bold text]

def link (url text : Text) : Node := linkTag none (some url) (some text)

/-- The content of a cell that holds one paragraph with one node. -/
def cell (node : Node) : List Node := [paragraph [node]]

/-- The header of a table whose columns have the given titles. -/
def titles (columns : List Text) : List (List Node) := columns.map fun t => cell (plainText t)

@[simp] theorem kind_withNodes (node : Node) (nodes : List Node) :
    (node.withNodes nodes).kind = node.kind := by
  cases node <;> rfl

end Node

end ApiReference.Doc
