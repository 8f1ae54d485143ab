import ApiReference.Doc.Node
import ApiReference.Text.Blank
import ApiReference.Text.Case
import ApiReference.Text.Word

/-!
# Inline tags, code spans and escapes

A line is plain text but for three things: inline tags in braces, code between
backticks, and a backslash before punctuation.  `special?` reads one of them at
the start of a text and always takes something away (`special?_length`), which is
why `inlineFrom` ends.
-/

namespace ApiReference.Comment

open Doc

/-- The characters that a backslash can stand before. -/
def escapable : List Char :=
  ['\\', '\x60', '*', '_', '\x7b', '\x7d', '[', ']', '(', ')', '#', '+', '-', '.', '!', '@', '|',
    '<', '>', '~']

/-- A text without the blanks around it, if anything is left. -/
def trimmed? (text : Text) : Option Text :=
  if (Text.trim text).isEmpty then none else some (Text.trim text)

/-- The link that the body of an inline tag describes: a destination, and after a bar its text. -/
def linkOf (body : Text) : Node :=
  let parts := Text.cut '|' body
  let destination := Text.trim parts.1
  let label? := parts.2.bind trimmed?
  if Text.includes "://" destination then .linkTag none (some destination) label?
  else if destination.isEmpty then .linkTag none none label?
  else .linkTag (some destination) none label?

/-- What an inline tag stands for; tags other than links show nothing. -/
def tagNodes (name body : Text) : List Node :=
  if Text.lower name = "link" then [linkOf body] else []

/-- The inline tag that a text goes on with after its opening `{@`, and what follows it. -/
def inlineTag? (text : Text) : Option (List Node × Text) :=
  let name := text.takeWhile Text.isWord
  if name.isEmpty then none
  else match text.dropWhile Text.isWord with
    | [] => none
    | c :: rest =>
      if c = '\x7d' then some (tagNodes name [], rest)
      else if Text.isBlank c then
        let parts := Text.cut '\x7d' (rest.dropWhile Text.isBlank)
        parts.2.map fun after => (tagNodes name parts.1, after)
      else none

/-- What is not plain text at the start of a text, and what follows it. -/
def special? : Text → Option (List Node × Text)
  | '\x7b' :: '@' :: rest => inlineTag? rest
  | '\x60' :: rest =>
    let parts := Text.cut '\x60' rest
    if parts.1.isEmpty then none
    else parts.2.map fun after => ([.codeSpan parts.1], after)
  | '\\' :: c :: rest =>
    if escapable.contains c then some ([.escapedText ['\\', c] [c]], rest) else none
  | _ => none

theorem inlineTag?_length {text : Text} {found : List Node × Text}
    (h : inlineTag? text = some found) : found.2.length < text.length := by
  have hle := (List.dropWhile_sublist Text.isWord (l := text)).length_le
  simp only [inlineTag?] at h
  split at h
  · cases h
  · split at h
    · cases h
    · rename_i c rest hd
      rw [hd] at hle
      simp only [List.length_cons] at hle
      split at h
      · cases h
        simp only
        omega
      · split at h
        · obtain ⟨after, ha, rfl⟩ := Option.map_eq_some_iff.1 h
          have h1 := Text.length_lt_of_cut ha
          have h2 := (List.dropWhile_sublist Text.isBlank (l := rest)).length_le
          simp only
          omega
        · cases h

theorem special?_length {text : Text} {found : List Node × Text}
    (h : special? text = some found) : found.2.length < text.length := by
  unfold special? at h
  split at h
  · have := inlineTag?_length h
    simp only [List.length_cons]
    omega
  · simp only at h
    split at h
    · cases h
    · obtain ⟨after, ha, rfl⟩ := Option.map_eq_some_iff.1 h
      have := Text.length_lt_of_cut ha
      simp only [List.length_cons]
      omega
  · split at h
    · cases h
      simp only [List.length_cons]
      omega
    · cases h
  · cases h

/-- Plain text collected so far, newest character first, as a node. -/
def plainNodes (collected : Text) : List Node :=
  if collected.isEmpty then [] else [.plainText collected.reverse]

/-- The nodes of a text after the plain text collected before it. -/
def inlineFrom (collected : Text) (text : Text) : List Node :=
  match _h : special? text with
  | some found => plainNodes collected ++ found.1 ++ inlineFrom [] found.2
  | none =>
    match text with
    | [] => plainNodes collected
    | c :: rest => inlineFrom (c :: collected) rest
termination_by text.length
decreasing_by
  · exact special?_length _h
  · simp

/-- The nodes of one line. -/
def inline (text : Text) : List Node := inlineFrom [] text

end ApiReference.Comment
