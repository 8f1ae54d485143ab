import ApiReference.Text.Basic

/-!
# Flaws of documents

What can be wrong with the text of a document, and the report of it.  A reader goes
through a text from the left, so what it has not read yet says where it stopped.
-/

namespace ApiReference.Json

/-- What is wrong with a text that spells no value. -/
inductive Flaw where
  | byteOrderMark
  /-- Something else stands where a value has to start. -/
  | value
  | key
  | colon
  | comma
  /-- More than space follows the value. -/
  | extraData
  | openText
  | controlCharacter
  | escape
  | unicodeEscape
deriving DecidableEq, Repr

/-- Why a text is not read as a value. -/
inductive Misread where
  /-- The text has a flaw, given with the rest of the text from there on. -/
  | malformed (flaw : Flaw) (rest : Text)
  /-- A whole number has more digits than a numeral may have. -/
  | longNumeral
  /-- Lists and objects stand inside each other more deeply than they are followed. -/
  | tooDeep
deriving DecidableEq, Repr

namespace Flaw

def wording : Flaw → Text
  | byteOrderMark => "Unexpected UTF-8 BOM (decode using utf-8-sig)"
  | value => "Expecting value"
  | key => "Expecting property name enclosed in double quotes"
  | colon => "Expecting ':' delimiter"
  | comma => "Expecting ',' delimiter"
  | extraData => "Extra data"
  | openText => "Unterminated string starting at"
  | controlCharacter => "Invalid control character at"
  | escape => "Invalid \\escape"
  | unicodeEscape => "Invalid \\uXXXX escape"

/-- The report of a flaw of a text that is read up to some rest. Lines and columns are counted from
one, and characters from zero. -/
def report (input rest : Text) (flaw : Flaw) : Text :=
  let before := input.take (input.length - rest.length)
  let column := (before.reverse.takeWhile (· != '\n')).length + 1
  flaw.wording ++ ": line " ++ Text.ofNat (before.count '\n' + 1) ++
    " column " ++ Text.ofNat column ++ " (char " ++ Text.ofNat before.length ++ ")"

end Flaw

end ApiReference.Json
