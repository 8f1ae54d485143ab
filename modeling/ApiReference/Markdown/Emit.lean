import ApiReference.Doc.Trim
import ApiReference.Markdown.Escape
import ApiReference.Markdown.Link
import ApiReference.Markdown.Writer

/-!
# Writing trees as Markdown

`emit` first replaces the references of a tree by links, which may give notices,
and then writes it.  Writing is a total function from the state before a node to
the state after it: the text so far, whether the node is inside a table, and how
deep it is in lists.
-/

namespace ApiReference.Markdown

open Doc

/-- A text under construction and what surrounds the node being written. -/
structure Emission where
  writer : Writer
  insideTable : Bool
  listLevel : Nat
deriving DecidableEq, Repr

namespace Emission

def initial : Emission := ⟨.empty, false, 0⟩

def lift (f : Writer → Writer) (e : Emission) : Emission := { e with writer := f e.writer }

def put (t : Text) (e : Emission) : Emission := e.lift (.write t)

/-- Emphasis after such a character cannot merge with what is before it. -/
def isSafeBefore : Option Char → Bool
  | none | some '\n' | some ' ' | some '[' | some '>' => true
  | _ => false

/-- Writes literal text, escaped but for the blanks around it. -/
def plainText (t : Text) (w : Writer) : Writer :=
  let middle := Text.trim t
  if middle.isEmpty then w.write t
  else
    let w := w.write (t.takeWhile Text.isBlank)
    let w := if isSafeBefore w.last? then w else w.write "<!-- -->"
    (w.write (escape middle)).write (t.reverse.takeWhile Text.isBlank).reverse

/-- A code span; in a table, code of several lines becomes preformatted HTML. -/
def codeSpan (code : Text) (insideTable : Bool) : Text :=
  if !insideTable then '\x60' :: code ++ ['\x60']
  else match Text.splitLineFeeds (code.flatMap escapePipe) with
    | [line] => '\x60' :: line ++ ['\x60']
    | lines => "<pre>" ++ Text.join "&#010;" lines ++ "</pre>"

def isNewline (c : Char) : Bool := c == '\n' || c == '\r'

/-- The code without the line breaks at its end. -/
def trimNewlines (code : Text) : Text := (code.reverse.dropWhile isNewline).reverse

/-- What stands behind an opening fence: the language if it is a text. -/
def fenceMark : Json → Text
  | .text language => language
  | _ => []

/-- Writes code as a block of its own, or as preformatted HTML in a table. -/
def fencedCode (code : Text) (language : Json) (e : Emission) : Emission :=
  let code := trimNewlines code
  if e.insideTable then
    e.put ("<pre lang=\"" ++ language.display ++ "\">" ++
      Text.join "&#010;" (Text.splitLineFeeds (code.flatMap escapePipe)) ++ "</pre>")
  else e.lift fun w =>
    let w := (w.ensureNewLine.write fence).write (fenceMark language)
    ((w.newline.write code).newline).writeLine fence

def link (text destination : Text) (w : Writer) : Writer :=
  ((w.write "[").write (escape (Text.collapse text))).write ("](" ++ destination ++ ")")

/-- A link tag with a destination or with a text alone. References are resolved before. -/
def linkTag (reference? url? text? : Option Text) (w : Writer) : Writer :=
  match reference?, url?, text? with
  | some (_ :: _), _, _ => w
  | _, some (c :: url), some text => link text (c :: url) w
  | _, some (c :: url), none => link (c :: url) (c :: url) w
  | _, _, some (c :: text) => plainText (c :: text) w
  | _, _, _ => w

/-- A space, unless a blank was written last or nothing was. -/
def softBreak (w : Writer) : Writer :=
  match w.last? with
  | none => w
  | some c => if Text.isBlank c then w else w.write " "

/-- Ends a paragraph: by a break in a table cell that goes on, else by a blank line. -/
def endParagraph (followed : Bool) (e : Emission) : Emission :=
  if e.insideTable then if followed then e.put "<br><br>" else e
  else e.lift fun w => w.ensureNewLine.newline

def anchor (id : Text) (w : Writer) : Writer :=
  (w.ensureSkippedLine.writeLine ("<a id=\"" ++ id ++ "\"></a>")).newline

def heading (title : Text) (level : HeadingLevel) (w : Writer) : Writer :=
  (w.ensureSkippedLine.writeLine
    (List.replicate (min level.val 4) '#' ++ ' ' :: escape title)).newline

/-- The start of a list item on its own line. -/
def bullet (e : Emission) : Emission :=
  e.lift fun w => w.ensureNewLine.write
    (List.replicate (4 * (e.listLevel - 1)) ' ' ++ ['-', ' '])

def openList (e : Emission) : Emission :=
  let e := { e with listLevel := e.listLevel + 1 }
  if e.listLevel = 1 then e.lift .ensureSkippedLine else e

def closeList (e : Emission) : Emission :=
  let e := { e with listLevel := e.listLevel - 1 }
  if e.listLevel = 0 then e.lift .ensureSkippedLine else e

def openNote (w : Writer) : Writer := w.ensureNewLine.increaseIndent "> "

def closeNote (w : Writer) : Writer := w.ensureNewLine.dropIndent.newline

/-- Empty cells up to the width of the table. -/
def padCells : Nat → Writer → Writer
  | 0, w => w
  | n + 1, w => padCells n ((w.write " ").write " |")

/-- The line between the header and the rows of a table. -/
def ruleCells : Nat → Writer → Writer
  | 0, w => w
  | n + 1, w => ruleCells n (w.write " --- |")

def columnCount (header : List (List Node)) (rows : List (List (List Node))) : Nat :=
  rows.foldl (fun n row => max n row.length) header.length

def openTable (e : Emission) : Emission :=
  { e.lift .ensureSkippedLine with insideTable := true }

def closeTable (e : Emission) : Emission :=
  { e.lift .newline with insideTable := false }

/-- What stands before and after a row of cells. -/
def openRow (e : Emission) : Emission := e.put "| "

def closeRow (missing : Nat) (e : Emission) : Emission :=
  e.lift fun w => (padCells missing w).newline

end Emission

open Emission

mutual

/-- Writes a trimmed node without references; `followed` tells that another node comes after it
in the same container. -/
def write (followed : Bool) : Node → Emission → Emission
  | .plainText t, e => e.lift (plainText t)
  | .escapedText _ decoded, e => e.lift (plainText decoded)
  | .codeSpan code, e => e.put (codeSpan code e.insideTable)
  | .fencedCode code language, e => fencedCode code language e
  | .linkTag reference? url? text?, e => e.lift (linkTag reference? url? text?)
  | .softBreak, e => e.lift softBreak
  | .paragraph ns, e => endParagraph followed (writeAll ns e)
  | .body ns, e => writeAll ns e
  | .anchor id, e => e.lift (anchor id)
  | .heading title level, e => e.lift (heading title level)
  | .list ns, e => closeList (writeItems ns (openList e))
  | .noteBox ns, e => (writeAll ns (e.lift openNote)).lift closeNote
  | .table header rows, e =>
    let columns := columnCount header rows
    let e := openRow (openTable e)
    let e := closeRow (columns - header.length) (writeCells header e)
    let e := (openRow e).lift fun w => (ruleCells columns w).newline
    closeTable (writeRows columns rows e)
  | .emphasis ns bold italic, e =>
    let e := if bold then e.put "<b>" else e
    let e := if italic then e.put "<i>" else e
    let e := writeAll ns e
    let e := if italic then e.put "</i>" else e
    if bold then e.put "</b>" else e
  | .tableRow _, e => e
  | .tableCell _, e => e

def writeAll : List Node → Emission → Emission
  | [], e => e
  | n :: ns, e => writeAll ns (write (!ns.isEmpty) n e)

/-- Writes the items of a list. A list among them continues the item before it. -/
def writeItems : List Node → Emission → Emission
  | [], e => e
  | n :: ns, e =>
    let e := if n.kind = .list then e else bullet e
    writeItems ns (write false n e)

def writeCells : List (List Node) → Emission → Emission
  | [], e => e
  | c :: cs, e => writeCells cs ((writeAll c (e.put " ")).put " |")

def writeRows (columns : Nat) : List (List (List Node)) → Emission → Emission
  | [], e => e
  | r :: rs, e =>
    writeRows columns rs (closeRow (columns - r.length) (writeCells r (openRow e)))

end

/-- The text of a tree whose references are resolved. -/
def render (node : Node) : Text :=
  (write false node.trimmed .initial).writer.ensureNewLine.text

/-- The Markdown text of a tree. -/
def emit (resolver? : Option Resolver) (node : Node) : Traced Text :=
  return render (← linked resolver? node)

end ApiReference.Markdown
