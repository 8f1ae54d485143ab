import ApiReference.Diagnostics.Fault
import ApiReference.Text.Blank

/-!
# A text buffer with indents

Lines are indented as they are written.  The buffer remembers the last two
characters, which is enough to tell whether a line or a blank line was just
ended.
-/

namespace ApiReference.Markdown

/-- A text under construction. Each of its lines starts with the indents in force when its first
character is written. -/
structure Writer where
  /-- What was written, newest first. -/
  chunks : List Text
  /-- The last two characters written, or fewer at the start. -/
  tail : Text
  atLineStart : Bool
  /-- The indents in force, innermost first. -/
  indents : List Text
  /-- The indents joined, outermost first, kept so that they are not joined for each line. -/
  indent : Text
  indent_eq : indent = indents.reverse.flatten
deriving DecidableEq, Repr

namespace Writer

def empty : Writer := ⟨[], [], true, [], [], rfl⟩

def text (w : Writer) : Text := w.chunks.reverse.flatten

/-- Puts other indents in force. -/
def withIndents (indents : List Text) (w : Writer) : Writer :=
  { w with indents, indent := indents.reverse.flatten, indent_eq := rfl }

def increaseIndent (indent : Text) (w : Writer) : Writer := w.withIndents (indent :: w.indents)

/-- Drops the innermost indent, if there is one. -/
def dropIndent (w : Writer) : Writer := w.withIndents w.indents.tail

def decreaseIndent (w : Writer) : Except Fault Writer :=
  if w.indents.isEmpty then .error .emptyIndentStack else .ok w.dropIndent

def last? (w : Writer) : Option Char := w.tail.getLast?

def secondLast? (w : Writer) : Option Char := w.tail.dropLast.getLast?

/-- The last `n` characters of a text. -/
def lastOf (n : Nat) (t : Text) : Text := t.drop (t.length - n)

def put (t : Text) (w : Writer) : Writer :=
  { w with chunks := t :: w.chunks, tail := lastOf 2 (w.tail ++ t) }

/-- Writes the indent when a line starts. -/
def putIndent (w : Writer) : Writer :=
  if w.atLineStart && !w.indent.isEmpty then w.put w.indent else w

def newline (w : Writer) : Writer :=
  { w.putIndent.put ['\n'] with atLineStart := true }

/-- Writes a text without line breaks; an empty one writes nothing. -/
def part (t : Text) (w : Writer) : Writer :=
  if t.isEmpty then w else { w.putIndent.put t with atLineStart := false }

/-- Writes lines with newlines between them. -/
def parts : List Text → Writer → Writer
  | [], w => w
  | [t], w => w.part t
  | t :: ts, w => parts ts (w.part t).newline

/-- Writes a text; each of its line breaks becomes a newline. -/
def write (t : Text) (w : Writer) : Writer :=
  parts (Text.splitAt '\n' (Text.unifyNewlines t)) w

def writeLine (t : Text) (w : Writer) : Writer := (w.write t).newline

/-- Ends the line in progress. -/
def ensureNewLine (w : Writer) : Writer :=
  match w.last? with
  | none | some '\n' => w
  | _ => w.newline

/-- Leaves a blank line before what follows, except at the very start. -/
def ensureSkippedLine (w : Writer) : Writer :=
  if w.tail.isEmpty then w
  else
    let w := w.ensureNewLine
    if w.secondLast? = some '\n' then w else w.newline

/-- What can be asked of a writer. -/
inductive Operation where
  | write (text : Text)
  | writeLine (text : Text)
  | ensureNewLine
  | ensureSkippedLine
  | increaseIndent (indent : Text)
  | decreaseIndent
deriving DecidableEq, Repr

def perform (w : Writer) : Operation → Except Fault Writer
  | .write t => .ok (w.write t)
  | .writeLine t => .ok (w.writeLine t)
  | .ensureNewLine => .ok w.ensureNewLine
  | .ensureSkippedLine => .ok w.ensureSkippedLine
  | .increaseIndent t => .ok (w.increaseIndent t)
  | .decreaseIndent => w.decreaseIndent

/-- The writer after an operation; one that fails changes nothing. -/
def after (w : Writer) (operation : Operation) : Writer :=
  match w.perform operation with
  | .ok w => w
  | .error _ => w

end Writer

end ApiReference.Markdown
