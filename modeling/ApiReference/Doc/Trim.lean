import ApiReference.Doc.Node
import ApiReference.Text.Blank

/-!
# Blanks in paragraphs

`trimNodes` goes through a paragraph once.  Its state is the text collected since
the last node that is no text, and whether a space is due before the next visible
thing; `trimmed` does so for every paragraph of a tree.
-/

namespace ApiReference.Doc

/-- A run of text under construction. -/
structure Trim where
  /-- The text collected since the last other node, newest first. -/
  chunks : List Text
  /-- A space is due before whatever comes next. -/
  pending : Bool
  /-- Something visible was met. -/
  started : Bool
deriving DecidableEq, Repr

namespace Trim

def initial : Trim := ⟨[], false, false⟩

def text (t : Trim) : Text := t.chunks.reverse.flatten

/-- Puts the space that is due. -/
def settle (t : Trim) : Trim :=
  if t.pending then ⟨[' '] :: t.chunks, false, t.started⟩ else t

/-- Takes note of blanks between visible things. -/
def blank (t : Trim) (found : Bool) : Trim :=
  if found && t.started then { t with pending := true } else t

def visible (t : Trim) (piece : Text) : Trim :=
  if piece.isEmpty then t
  else { t.settle with chunks := piece :: t.settle.chunks, started := true }

/-- Adds the text of a node. -/
def add (t : Trim) (s : Text) : Trim :=
  let t := t.blank (s.head?.any Text.isBlank)
  let t := t.visible (Text.trim (Text.collapse s))
  t.blank (s.getLast?.any Text.isBlank)

/-- The collected text as a node, if there is any. -/
def flush (t : Trim) : List Node :=
  if t.chunks.isEmpty then [] else [.plainText t.text]

end Trim

/-- Goes on trimming with the given state. -/
def trimFrom (t : Trim) : List Node → List Node
  | [] => t.flush
  | .plainText s :: nodes => trimFrom (t.add s) nodes
  | .softBreak :: nodes => trimFrom (t.blank true) nodes
  | node :: nodes => t.settle.flush ++ node :: trimFrom ⟨[], false, true⟩ nodes

/-- Collapses every run of blanks and soft breaks to one space and drops those at the ends.
Neighbouring texts become one node. -/
def trimNodes (nodes : List Node) : List Node := trimFrom .initial nodes

mutual

/-- Trims every paragraph of a tree. -/
def Node.trimmed : Node → Node
  | .paragraph ns => .paragraph (trimNodes (trimmedAll ns))
  | .body ns => .body (trimmedAll ns)
  | .list ns => .list (trimmedAll ns)
  | .emphasis ns bold italic => .emphasis (trimmedAll ns) bold italic
  | .noteBox ns => .noteBox (trimmedAll ns)
  | .tableCell ns => .tableCell (trimmedAll ns)
  | .tableRow cells => .tableRow (trimmedCells cells)
  | .table header rows => .table (trimmedCells header) (trimmedRows rows)
  | node => node

def trimmedAll : List Node → List Node
  | [] => []
  | n :: ns => n.trimmed :: trimmedAll ns

def trimmedCells : List (List Node) → List (List Node)
  | [] => []
  | c :: cs => trimmedAll c :: trimmedCells cs

def trimmedRows : List (List (List Node)) → List (List (List Node))
  | [] => []
  | r :: rs => trimmedCells r :: trimmedRows rs

end

end ApiReference.Doc
