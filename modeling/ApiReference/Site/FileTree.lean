import ApiReference.Diagnostics.Fault
import ApiReference.Text.Blank

/-!
# Files and folders

What a run finds on a machine and leaves there, as a value: the entries of all
places.  A place has one spelling, a path may have many, because two dots go back
to the folder above.  So a path is followed step by step, every step needs a folder
to start from, and an `Obstacle` says why a path leads nowhere.  What `put` and
`clear` do is said once, by the entry of every place after them.
-/

namespace ApiReference.Site

/-- What stands at a place. -/
inductive Entry where
  | file (text : Text)
  | folder
deriving DecidableEq, Repr

/-- The entries of a machine. A place is the list of the steps to it from the root, which is a
folder without being listed. -/
abbrev FileTree := List (List Text × Entry)

/-- Why a path leads nowhere, or why nothing new can be where it leads. -/
inductive Obstacle where
  | missing
  /-- A file stands where the path has to go on. -/
  | fileOnTheWay
  | taken
  | longName
  /-- A character that no name can have. -/
  | badCharacter
deriving DecidableEq, Repr

def Obstacle.fault : Obstacle → Fault
  | missing => .missingFile
  | fileOnTheWay => .fileInPlace false
  | taken => .fileInPlace true
  | longName => .longName
  | badCharacter => .badPath

/-- What is done to a machine. -/
inductive Change where
  | makeFolder (place : List Text)
  | write (place : List Text) (text : Text)
  /-- Takes away all that is in a folder, and leaves the folder. -/
  | clear (place : List Text)
deriving DecidableEq, Repr

/-- The step back to the folder above. -/
def back : Text := ['.', '.']

/-- The steps of a path as it is shown, without those that go nowhere. -/
def stepsShown (path : Text) : List Text :=
  (Text.splitAt '/' path).filter fun s => !s.isEmpty && s != ['.']

/-- The path of a place from the root on. -/
def pathOf (place : List Text) : Text := '/' :: Text.join ['/'] place

/-- The size of a name, which is bounded in bytes and not in characters. -/
def bytes (t : Text) : Nat := t.foldl (fun n c => n + c.utf8Size) 0

def maxNameBytes : Nat := 255

def maxPathBytes : Nat := 4095

/-- What is wrong with a path wherever it leads. -/
def pathObstacle? (path : List Text) : Option Obstacle :=
  if path.any fun s => s.contains '\x00' then some .badCharacter
  else if maxPathBytes < path.foldl (fun n s => n + bytes s + 1) 0 then some .longName
  else none

/-- The order of paths: step by step. -/
def pathLt : List Text → List Text → Bool
  | _, [] => false
  | [], _ :: _ => true
  | a :: p, b :: q => Text.lt a b || (a == b && pathLt p q)

namespace FileTree

def get? (t : FileTree) (place : List Text) : Option Entry :=
  if place.isEmpty then some .folder else t.lookup place

def isFolder (t : FileTree) (place : List Text) : Bool :=
  match t.get? place with
  | some .folder => true
  | _ => false

/-- The text of the file at a place. -/
def text? (t : FileTree) (place : List Text) : Option Text :=
  match t.get? place with
  | some (.file text) => some text
  | _ => none

/-- Gives a place an entry, instead of the one it has. -/
def put (place : List Text) (entry : Entry) : FileTree → FileTree
  | [] => [(place, entry)]
  | known :: t => if known.1 = place then (place, entry) :: t else known :: put place entry t

/-- Takes away all that is below a place. -/
def clear (place : List Text) (t : FileTree) : FileTree :=
  t.filter fun known => !place.isPrefixOf known.1 || known.1 == place

def apply (t : FileTree) : Change → FileTree
  | .makeFolder place => t.put place .folder
  | .write place text => t.put place (.file text)
  | .clear place => t.clear place

theorem lookup_put (place other : List Text) (entry : Entry) (t : FileTree) :
    (put place entry t).lookup other = if other = place then some entry else t.lookup other := by
  induction t with
  | nil =>
    by_cases h : other = place
    · simp [put, h]
    · simp [put, List.lookup_cons, h, beq_false_of_ne h]
  | cons known t ih =>
    obtain ⟨name, old⟩ := known
    by_cases hn : name = place
    · by_cases h : other = place
      · simp [put, hn, h]
      · simp [put, List.lookup_cons, hn, h, beq_false_of_ne h]
    · by_cases h : other = place
      · subst h
        simp [put, List.lookup_cons, hn, ih, beq_false_of_ne (Ne.symm hn)]
      · simp only [put, hn, if_false, List.lookup_cons, ih, h]

/-- Only the place itself changes; the root stays a folder. -/
theorem get?_put {place : List Text} (h : place ≠ []) (other : List Text) (entry : Entry)
    (t : FileTree) :
    (put place entry t).get? other = if other = place then some entry else t.get? other := by
  cases other with
  | nil => simp [get?, Ne.symm h]
  | cons s other => simp [get?, lookup_put]

theorem lookup_filter_place (keep : List Text → Bool) (place : List Text) (t : FileTree) :
    List.lookup place (t.filter fun known => keep known.1) =
      if keep place then t.lookup place else none := by
  induction t with
  | nil => simp
  | cons known t ih =>
    obtain ⟨name, old⟩ := known
    by_cases hn : place = name
    · subst hn
      by_cases hk : keep place <;> simp [hk, ih]
    · by_cases hk : keep name <;>
        simp [List.lookup_cons, hk, ih, beq_false_of_ne hn]

/-- What is not below the place stays as it is. -/
theorem get?_clear (place other : List Text) (t : FileTree) :
    (t.clear place).get? other =
      if place.isPrefixOf other && other != place then none else t.get? other := by
  cases other with
  | nil => cases place <;> simp [get?]
  | cons s other =>
    have h := lookup_filter_place (fun p => !place.isPrefixOf p || p == place) (s :: other) t
    simp only [get?, clear, List.isEmpty_cons, Bool.false_eq_true, if_false, h]
    cases List.isPrefixOf place (s :: other) <;> by_cases he : s :: other = place <;> simp [he]

/-- The names of what stands directly in a folder. -/
def names (t : FileTree) (place : List Text) : List Text :=
  t.filterMap fun known => if known.1.dropLast = place then known.1.getLast? else none

theorem isPrefixOf?_eq_some {place path rest : List Text} :
    place.isPrefixOf? path = some rest ↔ place ++ rest = path := by
  induction place generalizing path with
  | nil =>
    show some path = some rest ↔ rest = path
    rw [Option.some.injEq, eq_comm]
  | cons s place ih =>
    cases path with
    | nil =>
      show none = some rest ↔ s :: place ++ rest = []
      simp
    | cons t path =>
      show (if s == t then place.isPrefixOf? path else none) = some rest ↔
        s :: place ++ rest = t :: path
      by_cases h : s = t <;> simp [h, ih]

/-- A folder and all folders below it, by the steps to them. -/
def foldersBelow (t : FileTree) (place : List Text) : List (List Text) :=
  [] :: t.filterMap fun known =>
    match known.2, place.isPrefixOf? known.1 with
    | .folder, some (s :: steps) => some (s :: steps)
    | _, _ => none

/-- The files below a place, by the steps to them. -/
def filesBelow (t : FileTree) (place : List Text) : List (List Text × Text) :=
  t.filterMap fun known =>
    match known.2, place.isPrefixOf? known.1 with
    | .file text, some (s :: steps) => some (s :: steps, text)
    | _, _ => none

theorem mem_filesBelow {t : FileTree} {place steps : List Text} {text : Text} :
    (steps, text) ∈ t.filesBelow place ↔ steps ≠ [] ∧ (place ++ steps, .file text) ∈ t := by
  simp only [filesBelow, List.mem_filterMap]
  constructor
  · rintro ⟨⟨path, entry⟩, hm, h⟩
    split at h
    · rename_i he hp
      simp only [Option.some.injEq, Prod.mk.injEq] at h he hp
      obtain ⟨rfl, rfl⟩ := h
      subst he
      exact ⟨by simp, isPrefixOf?_eq_some.1 hp ▸ hm⟩
    · cases h
  · rintro ⟨hn, hm⟩
    obtain ⟨s, rest, rfl⟩ := List.exists_cons_of_ne_nil hn
    refine ⟨_, hm, ?_⟩
    simp [isPrefixOf?_eq_some.2 (rfl : place ++ s :: rest = _)]

/-- Goes one step on from a place. -/
def enter (t : FileTree) (place : List Text) (step : Text) : Except Obstacle (List Text) :=
  match t.get? place with
  | none => .error .missing
  | some (.file _) => .error .fileOnTheWay
  | some .folder =>
    if step = back then .ok place.dropLast
    else if maxNameBytes < bytes step then .error .longName
    else if (t.get? (place ++ [step])).isSome then .ok (place ++ [step])
    else .error .missing

/-- Goes from a place along the steps of a path. -/
def follow (t : FileTree) (place : List Text) (path : List Text) : Except Obstacle (List Text) :=
  path.foldlM t.enter place

/-- The place that a path leads to. -/
def find (t : FileTree) (path : List Text) : Except Obstacle (List Text) :=
  match pathObstacle? path with
  | some obstacle => .error obstacle
  | none => t.follow [] path

/-- The place that a path leads to, if it leads anywhere. Nothing can be said about a path with a
name that is too long. -/
def find? (t : FileTree) (path : List Text) : Except Fault (Option (List Text)) :=
  match t.find path with
  | .ok place => .ok (some place)
  | .error .longName => .error .longName
  | .error _ => .ok none

/-- The text of the file that a path leads to, whose lines all end in the same way. -/
def read (t : FileTree) (path : List Text) : Except Fault Text :=
  match t.find path with
  | .error obstacle => .error obstacle.fault
  | .ok place =>
    match t.text? place with
    | some text => .ok (Text.unifyNewlines text)
    | none => .error .folderInPlace

/-- Whether a path leads to a folder. -/
def leadsToFolder (t : FileTree) (path : List Text) : Except Fault Bool :=
  return (← t.find? path).any t.isFolder

/-- The place of a new entry in the folder that a path leads to. -/
def vacancy (t : FileTree) (above : List Text) (name : Text) : Except Obstacle (List Text) :=
  match pathObstacle? (above ++ [name]) with
  | some obstacle => .error obstacle
  | none => do
    let place ← t.follow [] above
    match t.enter place name with
    | .ok _ => .error .taken
    | .error .missing => .ok (place ++ [name])
    | .error obstacle => .error obstacle

/-- The place at which a file is written, whether it is there or not. -/
def writable (t : FileTree) (path : List Text) : Except Fault (List Text) :=
  match t.find path with
  | .ok place => if t.isFolder place then .error .folderInPlace else .ok place
  | .error .missing => (t.vacancy path.dropLast (path.getLast?.getD back)).mapError Obstacle.fault
  | .error obstacle => .error obstacle.fault

end FileTree

end ApiReference.Site
