import ApiReference.Site.FileTree
import ApiReference.Site.Pattern

/-!
# What a pattern selects

A pattern is followed through a file tree step by step.  Two files may be the same
one reached on different ways; they are told apart, since a file is called by the
way to it.
-/

namespace ApiReference.Site

/-- An entry that a pattern selects: the way to it from the folder that the pattern starts in, and
where it is. -/
structure Found where
  way : List Text
  place : List Text
deriving DecidableEq, Repr

namespace Found

def on (f : Found) (step : Text) (place : List Text) : Found := ⟨f.way ++ [step], place⟩

/-- The entries with every way once. -/
def distinct : List Found → List Found
  | [] => []
  | f :: fs => f :: (distinct fs).filter fun g => g.way != f.way

/-- Puts an entry in front of the first one whose way does not come before. -/
def insert (f : Found) : List Found → List Found
  | [] => [f]
  | g :: gs => if pathLt g.way f.way then g :: insert f gs else f :: g :: gs

/-- The entries in the order of the ways to them. -/
def sort : List Found → List Found
  | [] => []
  | f :: fs => insert f (sort fs)

end Found

namespace FileTree

/-- Whether a step of a pattern can lead to a place: only folders can be gone on from. -/
def allows (t : FileTree) (rest : Pattern) (place : List Text) : Bool :=
  rest.isEmpty || t.isFolder place

/-- Goes one step on from a folder, which a path leads to. -/
def enterFrom (t : FileTree) (path place : List Text) (step : Text) :
    Except Obstacle (List Text) :=
  match pathObstacle? (path ++ [step]) with
  | some obstacle => .error obstacle
  | none => t.enter place step

/-- A folder can be looked into only on a path that is not too long. -/
def checkLook (path : List Text) : Except Fault Unit :=
  match pathObstacle? path with
  | some obstacle => .error obstacle.fault
  | none => .ok ()

/-- What the steps of a pattern select from a folder on. The pattern starts in the folder that a
path leads to. -/
def select (t : FileTree) (start : List Text) : Pattern → Found → Except Fault (List Found)
  | [], f => return [f]
  | .here :: _, f => return [f]
  | .name name :: rest, f =>
    match t.enterFrom (start ++ f.way) f.place name with
    | .ok place => if t.allows rest place then select t start rest (f.on name place) else return []
    | .error .longName => .error .longName
    | .error _ => return []
  | .names pattern :: rest, f => do
    checkLook (start ++ f.way)
    let names := (t.names f.place).filter fun name =>
      pattern.fits name && t.allows rest (f.place ++ [name])
    return (← names.mapM fun name => select t start rest (f.on name (f.place ++ [name]))).flatten
  | .anyFolders :: rest, f => do
    let folders := (t.foldersBelow f.place).map fun steps =>
      ⟨f.way ++ steps, f.place ++ steps⟩
    let found ← folders.mapM fun g => do
      checkLook (start ++ g.way)
      select t start rest g
    return Found.distinct found.flatten

/-- What a pattern selects in the folder that a path leads to, in order. -/
def selected (t : FileTree) (pattern : Pattern) (path : List Text) : Except Fault (List Found) := do
  match ← t.find? path with
  | some place =>
    if t.isFolder place then return Found.sort (← t.select path pattern ⟨[], place⟩) else return []
  | none => return []

end FileTree

end ApiReference.Site
