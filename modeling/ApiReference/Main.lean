import ApiReference.Site.CommandLine

/-!
# The program

Reads what the command line names into a file tree, lets `Site.run` decide
everything, and carries out the changes that it asks for.
-/

namespace ApiReference

open Site

namespace Program

/-- The path of a place as the machine takes it. -/
def diskPath (place : List Text) : String := String.ofList (pathOf place)

/-- A place as the machine lists it in its folder. -/
def dirEntry (place : List Text) : IO.FS.DirEntry :=
  ⟨diskPath place.dropLast, String.ofList (place.getLast?.getD [])⟩

/-- The text of a file; one that cannot be read as text is empty. -/
def textOf (place : List Text) : IO Text := do
  try return (← IO.FS.readFile (diskPath place)).toList
  catch _ => return []

/-- What stands at a place, without the text of a file. -/
def entryAt (place : List Text) : IO (Option Entry) := do
  let path := (dirEntry place).path
  if ← path.isDir then return some .folder
  if ← path.pathExists then return some (.file [])
  return none

/-- Adds an entry to a tree that has none for the place. -/
def learn (tree : FileTree) (place : List Text) (entry : Entry) : FileTree :=
  if (tree.get? place).isSome then tree else tree.put place entry

/-- Adds a place to a tree and what is up to `depth` steps below it. -/
def addBelow : (depth : Nat) → FileTree → (place : List Text) → IO FileTree
  | depth, tree, place => do
    match ← entryAt place with
    | none => return tree
    | some entry =>
      let mut tree := learn tree place entry
      match depth, entry with
      | depth + 1, .folder =>
        for below in ← (dirEntry place).path.readDir do
          tree ← addBelow depth tree (place ++ [below.fileName.toList])
      | _, _ => pure ()
      return tree

/-- Adds the places on the way to a place to a tree, and that place. -/
def addAlong (tree : FileTree) (place : List Text) : IO FileTree := do
  let mut tree := tree
  for n in List.range place.length do
    let above := place.take (n + 1)
    if let some entry ← entryAt above then tree := learn tree above entry
  return tree

/-- Fills in the text of a file. -/
def addText (tree : FileTree) (place : List Text) : IO FileTree := do
  match tree.text? place with
  | some _ => return tree.put place (.file (← textOf place))
  | none => return tree

/-- The reader of configuration files: of all YAML documents it knows those that are JSON documents,
with their numbers as JSON has them, and blank ones. -/
def yaml (text : Text) : Option Json :=
  if (Text.trim text).isEmpty then some .null else (Json.parse text).toOption

/-- The request of a command line, with the files that it can touch: the configuration file, what
the pattern can lead to, and the output folder. Only the texts of selected files are read. -/
def requestOf (options : Options) : IO Request := do
  let here := stepsShown (← IO.currentDir).toString.toList
  let start : Request := ⟨options, here, [], yaml⟩
  let placeOf (path : Text) : List Text := Page.walkPieces (start.stepsTo path)
  let tree ← match options.config? with
    | some path => addText (← addAlong [] (placeOf path)) (placeOf path)
    | none => pure []
  let pattern := match (Request.mk options here tree yaml).pattern with
    | .ok pattern => pattern
    | .error _ => []
  let input := placeOf options.input
  let top := input.take (input.length - pattern.climbs)
  let mut tree ← addBelow (pattern.climbs + pattern.depth) (← addAlong tree input) top
  if let .ok found := tree.selected pattern (start.stepsTo options.input) then
    for file in found do tree ← addText tree file.place
  tree ← addBelow maxPathBytes (← addAlong tree start.outputPlace) start.outputPlace
  return ⟨options, here, tree, yaml⟩

/-- Carries out one change. -/
def carryOut : Change → IO Unit
  | .makeFolder place => IO.FS.createDirAll (diskPath place)
  | .write place text => IO.FS.writeFile (diskPath place) (String.ofList text)
  | .clear place => do
    for entry in ← (dirEntry place).path.readDir do
      match (← entry.path.symlinkMetadata).type with
      | .dir => IO.FS.removeDirAll entry.path
      | _ => IO.FS.removeFile entry.path

/-- What is told about a fault that stops the program. -/
def lastWords (fault : Fault) : String :=
  match fault.message? with
  | some message => String.ofList message
  | none => "A value of the input or of the configuration cannot be used"

def carryOutAll (options : Options) : IO UInt32 := do
  let outcome := Site.run (← requestOf options)
  for c in outcome.changes do carryOut c
  for line in outcome.printed do IO.println (String.ofList line)
  for notice in outcome.shown do IO.eprintln (String.ofList (shownLine notice))
  match outcome.exit with
  | .ok (.code n) => return n.toUInt32
  | .ok (.text t) =>
    IO.eprintln (String.ofList t)
    return 1
  | .error fault =>
    IO.eprintln (lastWords fault)
    return 1

end Program

end ApiReference

/-- Reads the words after the program's name and carries out what they ask for. -/
def main (words : List String) : IO UInt32 := do
  match ApiReference.Site.Options.ofWords? (words.map String.toList) with
  | some options => ApiReference.Program.carryOutAll options
  | none =>
    IO.eprintln (String.ofList ApiReference.Site.Options.usage)
    return 2
