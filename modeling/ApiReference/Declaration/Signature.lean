import ApiReference.Declaration.Basic
import ApiReference.Text.Blank
import ApiReference.Text.Digit
import ApiReference.Text.Word

/-!
# Signatures

How a declaration is shown: as code without the words that only say how it is
exported, and as a title that lists the names of its parameters.
-/

namespace ApiReference.Declaration

/-- Whether a text starts with the word `static`. -/
def startsStatic (t : Text) : Bool :=
  match Text.after? "static" t with
  | none => false
  | some [] => true
  | some (c :: _) => !Text.isWord c

/-- The excerpt of a declaration, beginning with `static` for a static one. -/
def Info.withModifiers (i : Info) : Text :=
  let t := Text.trim i.excerpt
  if i.isStatic && !startsStatic t then "static " ++ t else t

/-- The words that say how a declaration is exported, each dropped once and in this order. -/
def exportWords : List Text := ["export ", "default ", "declare "]

def Info.signature (i : Info) : Text :=
  exportWords.foldl (fun t word => (Text.after? word t).getD t) i.withModifiers

/-- Code without the indent that all its lines but the first have; code of one line is trimmed. -/
def dedent (code : Text) : Text :=
  match Text.splitLineFeeds code with
  | first :: line :: lines =>
    let indent (l : Text) : Nat := (l.takeWhile Text.isBlank).length
    let shared := lines.foldl (fun n l => min n (indent l)) (indent line)
    Text.join ['\n'] (first :: (line :: lines).map fun l => l.drop shared)
  | _ => Text.trim code

/-- A text between two of the given quotes on one line. -/
def isQuoted (quote : Char) (t : Text) : Bool :=
  match t with
  | [] => false
  | c :: rest =>
    c == quote && rest.getLast? == some quote && !rest.contains '\n'

/-- Digits, and perhaps a point with further digits. -/
def isNumber (t : Text) : Bool :=
  !(t.takeWhile Text.isDecimal).isEmpty &&
    match t.dropWhile Text.isDecimal with
    | [] => true
    | c :: rest => c == '.' && rest.all Text.isDecimal

def literalWords : List Text := ["true", "false", "null", "undefined"]

/-- Whether a text is a literal of the source language. -/
def isLiteral (t : Text) : Bool :=
  isQuoted '\'' t || isQuoted '"' t || isNumber t ||
    literalWords.contains t

/-- Whether a type consists of a literal, which may end with one newline. -/
def isLiteralType (t : Text) : Bool :=
  isLiteral t || (t.getLast? == some '\n' && isLiteral t.dropLast)

/-- Literal types are shown, because they tell overloads apart. -/
def Parameter.title (p : Parameter) : Text :=
  if isLiteralType p.type then p.name ++ ": " ++ p.type else p.name

/-- The name of a declaration, with its parameters if it takes any. -/
def Info.title (i : Info) : Text :=
  if i.kind.takesParameters then
    i.name ++ "(" ++ Text.join ", " (i.parameters.map Parameter.title) ++ ")"
  else i.name

end ApiReference.Declaration
