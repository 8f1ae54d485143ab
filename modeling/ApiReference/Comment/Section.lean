import ApiReference.Comment.Inline

/-!
# Paragraphs and code blocks

The lines of a block are either prose, which blank lines divide into paragraphs,
or code between fences.  `sectionFrom` goes through them once and keeps the lines
of the paragraph or code block that is still open.
-/

namespace ApiReference.Comment

open Doc

/-- Whether a line opens or closes a code block in the reading of a comment. -/
def isFenceLine (line : Text) : Bool := fence.isPrefixOf (Text.trim line)

def isLanguageChar (c : Char) : Bool := Text.isWord c || c == '+' || c == '-'

/-- The language of the code block that a line opens. -/
def fenceLanguage? (line : Text) : Option Text :=
  match Text.after? fence (Text.trim line) with
  | none => none
  | some rest =>
    let language := rest.dropWhile Text.isBlank
    if language.all isLanguageChar then some language else none

/-- The nodes of the lines of one paragraph, with soft breaks between the lines. -/
def paragraphNodes : List Text → List Node
  | [] => []
  | [line] => inline line
  | line :: lines => inline line ++ .softBreak :: paragraphNodes lines

def paragraph (lines : List Text) : Node := .paragraph (paragraphNodes lines)

/-- A code block; each of its lines ends with a newline. -/
def codeBlock (language : Text) (lines : List Text) : Node :=
  .fencedCode (Text.join ['\n'] lines ++ ['\n']) (.text language)

/-- What the lines read last belong to. -/
inductive Open where
  | prose (lines : List Text)
  | code (language : Text) (lines : List Text)
deriving DecidableEq, Repr

/-- The node that the open lines make, if there are any. -/
def Open.close : Open → List Node
  | .prose [] => []
  | .prose lines => [paragraph lines]
  | .code language lines => [codeBlock language lines]

/-- The nodes of lines that follow the open ones. -/
def sectionFrom (opened : Open) : List Text → List Node
  | [] => opened.close
  | line :: rest =>
    match opened with
    | .code language lines =>
      if isFenceLine line then opened.close ++ sectionFrom (.prose []) rest
      else sectionFrom (.code language (lines ++ [line])) rest
    | .prose lines =>
      match fenceLanguage? line with
      | some language => opened.close ++ sectionFrom (.code language []) rest
      | none =>
        if Text.allBlank line then opened.close ++ sectionFrom (.prose []) rest
        else sectionFrom (.prose (lines ++ [line])) rest

/-- The paragraphs and code blocks that lines make. -/
def sectionNodes (lines : List Text) : List Node := sectionFrom (.prose []) lines

end ApiReference.Comment
