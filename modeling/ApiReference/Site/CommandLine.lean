import ApiReference.Config.Load
import ApiReference.Declaration.Load
import ApiReference.Site.Generate
import ApiReference.Site.Options
import ApiReference.Site.Selection

/-!
# The command line

A run of the program as a function: from its options and the files of a machine to
what is printed, what changes on the machine, and how the program ends.  All
packages are loaded before anything is changed.  The reader of configuration files
is given with the request.
-/

namespace ApiReference.Site

/-- What the command line is asked to do, and where. -/
structure Request where
  options : Options
  /-- The folder that relative paths start from. -/
  here : List Text
  tree : FileTree
  /-- The value that a text spells as a YAML document, if it is one. -/
  yaml : Text → Option Json

namespace Request

/-- The steps of a path from the root on. -/
def stepsTo (r : Request) (path : Text) : List Text :=
  if path.head? = some '/' then stepsShown path else r.here ++ stepsShown path

/-- The place of the output folder, which need not be there yet. -/
def outputPlace (r : Request) : List Text := Page.walkPieces (r.stepsTo r.options.output)

/-- The name of a file in the input folder. -/
def fileName (r : Request) (way : List Text) : Text :=
  let folder := r.options.input
  if way.isEmpty then folder
  else if folder = ['.'] then Text.join ['/'] way
  else if folder.getLast? = some '/' then folder ++ Text.join ['/'] way
  else Text.join ['/'] (folder :: way)

/-- The configuration of a run. A file for it that is not there changes nothing. -/
def config (r : Request) : Except Fault Json :=
  match r.options.config? with
  | none => Config.load none
  | some path => do
    if (← r.tree.find? (r.stepsTo path)).isNone then Config.load none
    else match r.yaml (← r.tree.read (r.stepsTo path)) with
      | some value => Config.load (some value)
      | none => .error .badConfiguration

/-- The pattern of the input files. -/
def pattern (r : Request) : Except Fault Pattern := do
  Pattern.ofSetting (← Config.setting (← r.config) "input" "pattern")

end Request

/-- How a run ends: with a number, or with a text for the user. -/
inductive Exit where
  | code (n : Nat)
  | text (t : Text)
deriving DecidableEq, Repr

/-- What a run has done so far. -/
structure Progress where
  changes : List Change
  tree : FileTree
  printed : List Text
deriving Repr

/-- A run; what it has done stays when it stops with a fault. -/
abbrev Run := ExceptT Fault (StateT Progress Noted)

namespace Run

def ofTraced {α : Type} (x : Traced α) : Run α :=
  ExceptT.mk (StateT.lift x.run)

def print (line : Text) : Run Unit :=
  modify fun p => { p with printed := p.printed ++ [line] }

def change (c : Change) : Run Unit :=
  modify fun p => { p with changes := p.changes ++ [c], tree := p.tree.apply c }

end Run

/-- The levels of messages by name. -/
def levelNames : List (Text × Int) :=
  [("CRITICAL", 50), ("FATAL", 50), ("ERROR", 40), ("WARNING", 30), ("WARN", 30), ("INFO", 20),
    ("DEBUG", 10), ("NOTSET", 0)]

/-- The least rank of notices that are shown. -/
def thresholdOf : Json → Except Fault Int
  | .null => .ok 30
  | .int n => .ok n
  | .bool b => .ok (if b then 1 else 0)
  | .text name =>
    match levelNames.lookup name with
    | some rank => .ok rank
    | none => .error .unknownLevel
  | _ => .error .wrongType

def threshold (r : Request) : Except Fault Int := do
  if r.options.verbose then return 10
  thresholdOf (← Config.setting (← r.config) "logging" "level")

/-- A package as it was loaded from a file. -/
structure Loaded where
  package : Declaration
  /-- Whether the file spells half of a surrogate pair without the other half. -/
  halved : Bool
deriving Repr

/-- Whether a text of a package can be encoded: no half of a surrogate pair stands in it. -/
def Loaded.encodes (l : Loaded) (t : Text) : Bool := !(l.halved && t.any Json.isHalf)

/-- Reads one input file. -/
def loadFile (r : Request) (config : Json) (file : Found) : Traced Loaded := do
  let name := r.fileName file.way
  Noted.note (.loading name)
  let text ← r.tree.read (r.stepsTo r.options.input ++ file.way)
  let package ← Declaration.packageOfText config name text
  return ⟨package, Json.spellsHalf false text⟩

def loadFiles (r : Request) (config : Json) : List Found → Traced (List Loaded)
  | [] => return []
  | file :: files => do
    let first ← loadFile r config file
    return first :: (← loadFiles r config files)

/-- Makes the folder of a path, given from its end, and all folders on the way that are missing. -/
def makeFolders : List Text → Run Unit
  | [] => return ()
  | name :: above => do
    match (← get).tree.vacancy above.reverse name with
    | .ok place => Run.change (.makeFolder place)
    | .error .missing => do
      makeFolders above
      makeLast name above
    | .error obstacle => settle name above obstacle
where
  /-- Makes a folder in one that is there. -/
  makeLast (name : Text) (above : List Text) : Run Unit := do
    match (← get).tree.vacancy above.reverse name with
    | .ok place => Run.change (.makeFolder place)
    | .error obstacle => settle name above obstacle
  /-- No folder has to be made where one is. -/
  settle (name : Text) (above : List Text) (obstacle : Obstacle) : Run Unit := do
    if !(← (← get).tree.leadsToFolder (name :: above).reverse) then throw obstacle.fault

/-- Writes one page of a package below a folder. What is there already is replaced with a notice.
The file is opened before the text is encoded, and stays empty if that fails. -/
def writePage (root : List Text) (l : Loaded) (page : Page) : Run Unit := do
  let path := root ++ stepsShown page.path
  makeFolders path.dropLast.reverse
  let tree := (← get).tree
  if (← tree.find? path).isSome then Run.ofTraced (Noted.note (.overwriting (pathOf path)))
  let place ← tree.writable path
  if l.encodes page.text then Run.change (.write place page.text)
  else
    Run.change (.write place [])
    throw .unencodable

def writePages (root : List Text) (l : Loaded) : List Page → Run Unit
  | [] => return ()
  | page :: pages => do
    writePage root l page
    writePages root l pages

/-- Generates and writes the pages of packages, and counts them. -/
def writePackages (root : List Text) (settings : Settings) : List Loaded → Run Nat
  | [] => return 0
  | l :: ls => do
    if !l.encodes l.package.name then throw .unencodable
    Run.print ("Writing " ++ l.package.name ++ " package")
    let pages ← Run.ofTraced (packagePages settings Doc.Grammar.standard l.package)
    writePages root l pages
    return pages.length + (← writePackages root settings ls)

/-- Empties the output folder when the configuration asks for it. -/
def clearOutput (root : List Text) (config : Json) : Run Unit := do
  if (← Config.setting config "output" "clear").isPresent then
    Run.print ("Deleting old output from " ++ pathOf root)
    makeFolders root.reverse
    Run.change (.clear root)

/-- Loads all packages before anything is changed, and then writes their pages. -/
def generate (r : Request) : Run Exit := do
  let config ← r.config
  let setting ← Config.setting config "input" "pattern"
  let pattern ← Pattern.ofSetting setting
  let files ← r.tree.selected pattern (r.stepsTo r.options.input)
  if files.isEmpty then
    return .text ("No " ++ setting.display ++ " files found under: " ++ r.options.input)
  let loaded ← Run.ofTraced (loadFiles r config files)
  let root := r.outputPlace
  if root.any fun s => s.contains '\x00' then throw .badPath
  clearOutput root config
  let settings ← Settings.ofConfig config
  let written ← writePackages root settings loaded
  Run.print ("Generated " ++ Text.ofNat written ++ " pages into: " ++ pathOf root)
  return .code 0

/-- A run that a fault of a document stops ends with a notice of it. -/
def guarded (r : Request) : Run Exit :=
  tryCatch (generate r) fun fault =>
    match fault.isReported, fault.message? with
    | true, some message => do
      Run.ofTraced (Noted.note (.failed message))
      return .code 1
    | _, _ => throw fault

/-- What a run leaves behind. -/
structure Outcome where
  exit : Except Fault Exit
  /-- What is changed on the machine, in order, and what is there after that. -/
  changes : List Change
  tree : FileTree
  printed : List Text
  /-- The notices that are shown. -/
  shown : List Notice

/-- Carries out a request. -/
def run (r : Request) : Outcome :=
  match threshold r with
  | .error fault => ⟨.error fault, [], r.tree, [], []⟩
  | .ok least =>
    let done := ((guarded r).run ⟨[], r.tree, []⟩)
    let progress := done.value.2
    ⟨done.value.1, progress.changes, progress.tree, progress.printed,
      done.notices.filter fun n => decide (least ≤ n.level.rank)⟩

/-- The line that shows a notice. -/
def shownLine (n : Notice) : Text := n.level.name ++ ": " ++ n.message

end ApiReference.Site
