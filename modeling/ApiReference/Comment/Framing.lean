import ApiReference.Text.Blank

/-!
# The frame of a comment

A comment is written between `/**` and `*/`, with an asterisk in front of each
line.  `unframe` gives the lines without any of that; a text that has no frame
loses only its blanks.
-/

namespace ApiReference.Comment

/-- A text without the given one at its end. -/
def dropEnd (ending text : Text) : Text :=
  match Text.after? ending.reverse text.reverse with
  | some rest => rest.reverse
  | none => text

/-- A line without the asterisk in front of it, one space after that, and the blanks at its end. -/
def unframeLine (line : Text) : Text :=
  match Text.trim line with
  | '*' :: ' ' :: rest => Text.trimEnd rest
  | '*' :: rest => Text.trimEnd rest
  | rest => rest

/-- The lines of a comment without its delimiters and leading asterisks. -/
def unframe (text : Text) : List Text :=
  let body := Text.trim text
  let body := (Text.after? "/**" body).getD body
  (Text.lines (dropEnd "*/" body)).map unframeLine

end ApiReference.Comment
