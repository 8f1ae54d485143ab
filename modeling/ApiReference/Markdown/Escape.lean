import ApiReference.Text.Basic

/-!
# Escaping text for Markdown

Markdown syntax is escaped with backslashes and HTML markup as entities, in three
passes over the text.
-/

namespace ApiReference.Markdown

/-- The characters that are escaped wherever they stand. -/
def isSpecial (c : Char) : Bool :=
  c == '\\' || c == '*' || c == '#' || c == '[' || c == ']' || c == '_' || c == '|' ||
    c == '\x60' || c == '~'

def escapeSpecial (c : Char) : Text := if isSpecial c then ['\\', c] else [c]

/-- Escapes the hyphens of every run of three or more. `inRun` tells that the text continues such
a run. -/
def escapeHyphens (inRun : Bool) : Text → Text
  | [] => []
  | c :: text =>
    if c = '-' then
      if inRun || List.isPrefixOf ['-', '-'] text then '\\' :: '-' :: escapeHyphens true text
      else '-' :: escapeHyphens false text
    else c :: escapeHyphens false text

/-- The characters of HTML markup, as entities. -/
def escapeEntity (c : Char) : Text :=
  if c = '&' then "&amp;" else if c = '<' then "&lt;" else if c = '>' then "&gt;" else [c]

/-- Escapes Markdown syntax and HTML markup. -/
def escape (text : Text) : Text :=
  (escapeHyphens false (text.flatMap escapeSpecial)).flatMap escapeEntity

/-- Escapes the pipes of code in a table cell. -/
def escapePipe (c : Char) : Text := if c = '|' then ['\\', '|'] else [c]

end ApiReference.Markdown
