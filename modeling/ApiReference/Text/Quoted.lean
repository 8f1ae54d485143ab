import ApiReference.Text.Printable

/-!
# Quoted texts

A text as it is shown in messages: between quotes that it does not contain if
there are any, with everything that cannot be seen escaped.
-/

namespace ApiReference.Text

/-- The lowest `width` hexadecimal digits of a number, in lower case. -/
def hexDigits : (width n : Nat) → Text
  | 0, _ => []
  | width + 1, n => hexDigits width (n / 16) ++ [Nat.digitChar (n % 16)]

/-- How a character is shown between quotes of the given kind. -/
def quotedChar (quote c : Char) : Text :=
  if c = quote || c = '\\' then ['\\', c]
  else if c = '\n' then "\\n"
  else if c = '\r' then "\\r"
  else if c = '\t' then "\\t"
  else if isPrintable c then [c]
  else if c.toNat < 0x100 then "\\x" ++ hexDigits 2 c.toNat
  else if c.toNat < 0x10000 then "\\u" ++ hexDigits 4 c.toNat
  else "\\U" ++ hexDigits 8 c.toNat

/-- Single quotes, or double ones around a text with single quotes and no double ones. -/
def quoteFor (text : Text) : Char :=
  if text.contains '\'' && !text.contains '"' then '"' else '\''

/-- The text between quotes, with its unprintable characters escaped. -/
def quoted (text : Text) : Text :=
  let quote := quoteFor text
  quote :: text.flatMap (quotedChar quote) ++ [quote]

end ApiReference.Text
