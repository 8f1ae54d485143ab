import ApiReference.Comment.Basic
import ApiReference.Comment.Framing
import ApiReference.Comment.Section
import ApiReference.Comment.Vocabulary
import ApiReference.Diagnostics.Traced

/-!
# Reading comments

Lines are read in order into drafts, one for the summary and one for each block
tag.  Tags count at the start of a line only, and not inside a fence.  When all
lines are read, every draft becomes a block of the comment.
-/

namespace ApiReference.Comment

open Doc

/-- The lines after a block tag; the first draft of a comment holds its summary. -/
structure Draft where
  tag : Text
  lines : List Text
deriving DecidableEq, Repr

/-- What was read of a comment so far. -/
structure Reading where
  fenced : Bool
  /-- The drafts that are complete, in order. -/
  closed : List Draft
  current : Draft
  modifiers : List Text
deriving DecidableEq, Repr

namespace Reading

def initial : Reading := ⟨false, [], ⟨"summary", []⟩, []⟩

def addLine (r : Reading) (line : Text) : Reading :=
  { r with current := { r.current with lines := r.current.lines ++ [line] } }

def openBlock (r : Reading) (tag : Text) : Reading :=
  { r with closed := r.closed ++ [r.current], current := ⟨tag, []⟩ }

def addModifier (r : Reading) (tag : Text) : Reading :=
  if r.modifiers.contains tag then r else { r with modifiers := r.modifiers ++ [tag] }

def drafts (r : Reading) : List Draft := r.closed ++ [r.current]

end Reading

/-- The name of the tag that a text starts with, and what follows it and the blanks after it. -/
def tag? : Text → Option (Text × Text)
  | '@' :: c :: rest =>
    if c.isAlpha then
      some (c :: rest.takeWhile Text.isWord, (rest.dropWhile Text.isWord).dropWhile Text.isBlank)
    else none
  | _ => none

theorem tag?_length {text : Text} {found : Text × Text} (h : tag? text = some found) :
    found.2.length < text.length := by
  unfold tag? at h
  split at h
  · rename_i c rest
    split at h
    · cases h
      have h1 := (List.dropWhile_sublist Text.isWord (l := rest)).length_le
      have h2 := (List.dropWhile_sublist Text.isBlank (l := rest.dropWhile Text.isWord)).length_le
      simp only [List.length_cons]
      omega
    · cases h
  · cases h

/-- Reads the tags at the start of a line: modifiers until a tag opens a block or is unknown. The
rest of the line is what stays as text. -/
def readTags (v : Vocabulary) (r : Reading) (text : Text) : Noted (Reading × Text) :=
  match _h : tag? text with
  | none => return (r, text)
  | some found =>
    match v.modifier? (Text.upper found.1) with
    | some spelling => readTags v (r.addModifier spelling) found.2
    | none =>
      if v.isBlock (Text.upper found.1) then return (r.openBlock found.1, found.2)
      else do
        Noted.note (.unknownTag found.1)
        return (r, text)
termination_by text.length
decreasing_by exact tag?_length _h

/-- Reads one line. Inside a fence, and on the line of a fence, tags are text. -/
def readLine (v : Vocabulary) (r : Reading) (line : Text) : Noted Reading :=
  if isFenceLine line then return { r with fenced := !r.fenced }.addLine line
  else if r.fenced then return r.addLine line
  else do
    let (r, rest) ← readTags v r (Text.trim line)
    return if rest.isEmpty && !Text.allBlank line then r else r.addLine rest

def readLines (v : Vocabulary) : Reading → List Text → Noted Reading
  | r, [] => return r
  | r, line :: lines => do readLines v (← readLine v r line) lines

def isParamChar (c : Char) : Bool := Text.isWord c || c == '$' || c == '.'

/-- The parameter name that a line starts with, and the text after it and a hyphen; none if the
line starts otherwise. -/
def paramLine? (line : Text) : Option (Text × Text) :=
  let line := Text.trim line
  let name := line.takeWhile isParamChar
  if name.isEmpty then none
  else match (line.dropWhile isParamChar).dropWhile Text.isBlank with
    | '-' :: rest => some (name, rest.dropWhile Text.isBlank)
    | rest => some (name, rest)

/-- The block of a parameter, whose first line names it. -/
def paramBlock (draft : Draft) : ParamBlock :=
  match draft.lines with
  | [] => ⟨⟨draft.tag, sectionNodes [[]]⟩, []⟩
  | first :: lines =>
    match paramLine? first with
    | some (name, rest) => ⟨⟨draft.tag, sectionNodes (rest :: lines)⟩, name⟩
    | none => ⟨⟨draft.tag, sectionNodes (first :: lines)⟩, []⟩

/-- Adds the block of a draft to a comment. Of several remarks, deprecations or return values the
last one counts. -/
def addDraft (c : Comment) (draft : Draft) : Comment :=
  let key := Text.upper draft.tag
  if key = "PARAM" then { c with params := c.params ++ [paramBlock draft] }
  else
    let block : Block := ⟨draft.tag, sectionNodes draft.lines⟩
    if key = "REMARKS" then { c with remarks? := some block }
    else if key = "DEPRECATED" then { c with deprecated? := some block }
    else if key = "RETURNS" ∨ key = "RETURN" then { c with returns? := some block }
    else { c with custom := c.custom ++ [block] }

/-- The comment that the drafts of a reading make. -/
def ofReading (r : Reading) : Comment :=
  match r.drafts with
  | [] => empty
  | summary :: blocks =>
    blocks.foldl addDraft
      { empty with summary := sectionNodes summary.lines, modifiers := r.modifiers }

/-- Reads a comment, given without or with its frame. -/
def parse (v : Vocabulary) (text : Text) : Noted Comment :=
  return ofReading (← readLines v .initial (unframe text))

/-- Reads the raw comment of a document under a configuration. -/
def ofDocument (config comment : Json) : Traced Comment := do
  let v ← Vocabulary.ofConfig config
  let text ← comment.asText
  parse v text

end ApiReference.Comment
