import ApiReference.Diagnostics.Fault

/-!
# Which nodes may stand inside which

A grammar lists the kinds that each kind of container may hold.  It is consulted
whenever a node is added, and once more for a whole page; an `Edit` tells what was
added before the first forbidden node.
-/

namespace ApiReference.Doc

/-- The kinds that may stand directly inside each kind of container. -/
structure Grammar where
  allowed : List (Kind × List Kind)
deriving DecidableEq, Repr

/-- The nodes of a container after an attempt to add to it, and what stopped the attempt. -/
structure Edit where
  nodes : List Node
  fault? : Option Fault
deriving Repr

def Edit.result (edit : Edit) : Except Fault (List Node) :=
  match edit.fault? with
  | none => .ok edit.nodes
  | some fault => .error fault

namespace Grammar

/-- The kinds of text and code within a line. -/
def inline : List Kind := [.plainText, .escapedText, .codeSpan, .linkTag, .softBreak]

/-- The grammar of pages and comments. -/
def standard : Grammar := ⟨[
  (.body, [.paragraph, .fencedCode, .anchor, .heading, .list, .noteBox, .table]),
  (.paragraph, inline ++ [.emphasis, .list]),
  (.emphasis, [.linkTag, .plainText, .softBreak, .emphasis]),
  (.list, [.linkTag, .plainText, .emphasis, .list])]⟩

/-- Replaces the entry of a kind, or removes it. -/
def set (g : Grammar) (parent : Kind) (children? : Option (List Kind)) : Grammar :=
  let others := g.allowed.filter (·.1 != parent)
  match children? with
  | some children => ⟨(parent, children) :: others⟩
  | none => ⟨others⟩

/-- A kind without an entry allows nothing. -/
def allows (g : Grammar) (parent child : Kind) : Bool :=
  match g.allowed.lookup parent with
  | some children => children.contains child
  | none => false

/-- Adds nodes at the end of a container, up to the first one that is forbidden. -/
def extend (g : Grammar) (parent : Kind) (nodes : List Node) : List Node → Edit
  | [] => ⟨nodes, none⟩
  | n :: ns =>
    if g.allows parent n.kind then extend g parent (nodes ++ [n]) ns
    else ⟨nodes, some (.forbiddenChild parent n.kind)⟩

/-- Adds one node at the end of a container. -/
def append (g : Grammar) (parent : Kind) (nodes : List Node) (node : Node) : Edit :=
  g.extend parent nodes [node]

/-- The nodes themselves if all of them may stand in a container. -/
def permit (g : Grammar) (parent : Kind) (nodes : List Node) : Except Fault (List Node) :=
  (g.extend parent [] nodes).result

/-- Adds a node to the paragraph that ends a section, or to a new one. -/
def appendInParagraph (g : Grammar) (parent : Kind) (nodes : List Node) (node : Node) : Edit :=
  match nodes.getLast? with
  | some (.paragraph inner) =>
    let edit := g.append .paragraph inner node
    ⟨nodes.dropLast ++ [.paragraph edit.nodes], edit.fault?⟩
  | _ =>
    let edit := g.append parent nodes (.paragraph [])
    match edit.fault? with
    | some _ => edit
    | none =>
      let inner := g.append .paragraph [] node
      ⟨nodes ++ [.paragraph inner.nodes], inner.fault?⟩

/-- What stops an attempt to add nodes to a node that can hold none. -/
def refusal? (g : Grammar) (parent : Kind) : List Node → Option Fault
  | [] => none
  | n :: _ => some (if g.allows parent n.kind then .wrongShape else .forbiddenChild parent n.kind)

/-- A node with others added at its end, up to the first one that is forbidden, and what stopped
that. -/
def extendNode (g : Grammar) (container : Node) (added : List Node) : Node × Option Fault :=
  match container.nodes? with
  | some nodes =>
    let edit := g.extend container.kind nodes added
    (container.withNodes edit.nodes, edit.fault?)
  | none => (container, g.refusal? container.kind added)

def appendNode (g : Grammar) (container added : Node) : Node × Option Fault :=
  g.extendNode container [added]

/-- A node with another one in the paragraph at its end, and what stopped that. -/
def appendNodeInParagraph (g : Grammar) (container added : Node) : Node × Option Fault :=
  match container.nodes? with
  | some nodes =>
    let edit := g.appendInParagraph container.kind nodes added
    (container.withNodes edit.nodes, edit.fault?)
  | none => (container, some .wrongShape)

/-- The first kind among the nodes that a container may not hold. -/
def firstForbidden? (g : Grammar) (parent : Kind) (nodes : List Node) : Option Kind :=
  (nodes.find? fun n => !g.allows parent n.kind).map Node.kind

def hasEntry (g : Grammar) (kind : Kind) : Bool := (g.allowed.lookup kind).isSome

/-- Checks the nodes directly inside a container, and `inner` after that. A container without an
entry is not looked into. -/
def checkInside (g : Grammar) (parent : Kind) (nodes : List Node) (inner : Except Fault Unit) :
    Except Fault Unit :=
  if g.hasEntry parent then
    match g.firstForbidden? parent nodes with
    | some child => .error (.forbiddenChild parent child)
    | none => inner
  else .ok ()

/-- An entry for a kind that holds no nodes cannot be followed. -/
def checkClosed (g : Grammar) (kind : Kind) (inner : Except Fault Unit) : Except Fault Unit :=
  if g.hasEntry kind then .error .wrongShape else inner

mutual

/-- Checks every container of a tree, outer ones first. -/
def validate (g : Grammar) : Node → Except Fault Unit
  | .body ns => g.checkInside .body ns (validateAll g ns)
  | .paragraph ns => g.checkInside .paragraph ns (validateAll g ns)
  | .list ns => g.checkInside .list ns (validateAll g ns)
  | .emphasis ns _ _ => g.checkInside .emphasis ns (validateAll g ns)
  | .noteBox ns => g.checkClosed .noteBox (g.checkInside .body ns (validateAll g ns))
  | .tableCell ns => g.checkClosed .tableCell (g.checkInside .body ns (validateAll g ns))
  | .tableRow cells => g.checkClosed .tableRow (validateCells g cells)
  | .table header rows => g.checkClosed .table do
    g.checkClosed .tableRow (validateCells g header)
    validateRows g rows
  | node => g.checkClosed node.kind (.ok ())

def validateAll (g : Grammar) : List Node → Except Fault Unit
  | [] => .ok ()
  | n :: ns => do
    validate g n
    validateAll g ns

def validateCells (g : Grammar) : List (List Node) → Except Fault Unit
  | [] => .ok ()
  | c :: cs => do
    g.checkClosed .tableCell (g.checkInside .body c (validateAll g c))
    validateCells g cs

def validateRows (g : Grammar) : List (List (List Node)) → Except Fault Unit
  | [] => .ok ()
  | r :: rs => do
    g.checkClosed .tableRow (validateCells g r)
    validateRows g rs

end

end Grammar

end ApiReference.Doc
