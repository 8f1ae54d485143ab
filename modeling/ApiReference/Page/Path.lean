import ApiReference.Text.Basic

/-!
# Paths of pages

A path is a list of steps from the root.  The way between two paths goes back to
where they part and on from there.
-/

namespace ApiReference.Page

/-- Takes one step of a path: nothing and a dot stay, two dots go back. -/
def step (steps : List Text) (piece : Text) : List Text :=
  if piece.isEmpty || piece == ['.'] then steps
  else if piece == ['.', '.'] then steps.dropLast
  else steps ++ [piece]

/-- The folders and the file on the way from the root along pieces of a path. -/
def walkPieces (pieces : List Text) : List Text := pieces.foldl step []

/-- The folders and the file on the way from the root along a path. -/
def stepsOf (path : Text) : List Text := walkPieces (Text.splitAt '/' path)

/-- The folders on the way to the folder of a file. -/
def folderOf (path : Text) : List Text := walkPieces (Text.splitAt '/' path).dropLast

/-- The steps from one place to another: back to where the ways part, and on from there. -/
def stepsBetween : (start stop : List Text) → List Text
  | a :: start, b :: stop =>
    if a = b then stepsBetween start stop
    else List.replicate (start.length + 1) ['.', '.'] ++ b :: stop
  | start, stop => List.replicate start.length ['.', '.'] ++ stop

/-- The way from a folder to a path; a dot if that is the folder itself. -/
def relativePath (folder : List Text) (path : Text) : Text :=
  match stepsBetween folder (stepsOf path) with
  | [] => ['.']
  | steps => Text.join ['/'] steps

/-- A relative path that cannot be taken for anything else. -/
def dotted (path : Text) : Text :=
  if List.isPrefixOf ['.', '/'] path || List.isPrefixOf ['.', '.', '/'] path then path
  else '.' :: '/' :: path

end ApiReference.Page
