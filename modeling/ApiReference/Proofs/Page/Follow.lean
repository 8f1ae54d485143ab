import ApiReference.Page.Path
import ApiReference.Proofs.Text.Split
import Mathlib.Data.List.DropRight
import Mathlib.Data.List.Induction

/-!
# Following relative paths

A reader who follows a relative path puts it behind the folder of the page it
stands on and takes the dots out.  `directory`, `joinPaths` and `normalise` say how.
The way that `relativePath` gives is read from the folder it starts in: each step
back takes one folder off, and the steps on end at the path (`foldl_stepsBetween`).
This needs the pieces of both paths to be plain names.
-/

namespace ApiReference.Page

variable {rooted : Bool} {steps start stop pieces : List Text} {piece path folder : Text}

/-! ## Reading a path -/

/-- The part of a path in front of its last slash; slashes at its end go unless it has nothing
else. -/
def directory (path : Text) : Text :=
  let head := path.rdropWhile (· ≠ '/')
  if head.all (· = '/') then head else head.rdropWhile (· = '/')

/-- A path as it is read from a folder. One that starts with a slash stands for itself. -/
def joinPaths (folder path : Text) : Text :=
  if path.head? = some '/' then path
  else if folder = [] ∨ folder.getLast? = some '/' then folder ++ path
  else folder ++ '/' :: path

/-- Takes one step: nothing and a dot stay, two dots go back where there is a folder to leave. Above
the start there is none at the root, and otherwise the dots are kept. -/
def resolveStep (rooted : Bool) (steps : List Text) (piece : Text) : List Text :=
  if piece = [] ∨ piece = ['.'] then steps
  else if piece ≠ ['.', '.'] ∨ (rooted = false ∧ steps = []) ∨ steps.getLast? = some ['.', '.'] then
    steps ++ [piece]
  else steps.dropLast

/-- The slashes that a normalised path starts with: two stay two, more count as one. -/
def leadingSlashes (path : Text) : Nat :=
  if ['/', '/'].isPrefixOf path && !(['/', '/', '/'].isPrefixOf path) then 2
  else if ['/'].isPrefixOf path then 1
  else 0

/-- A path without empty pieces, dots and folders that are left again. -/
def normalise (path : Text) : Text :=
  let steps := (Text.splitAt '/' path).foldl (resolveStep (path.head? = some '/')) []
  let text := List.replicate (leadingSlashes path) '/' ++ Text.join ['/'] steps
  if text = [] then ['.'] else text

/-! ## Plain paths -/

/-- A piece of a path that is just a name, and has no mark that would end the path in a link. -/
def PlainPiece (piece : Text) : Prop :=
  piece ≠ [] ∧ piece ≠ ['.'] ∧ piece ≠ ['.', '.'] ∧ '#' ∉ piece

instance : DecidablePred PlainPiece := fun _ => inferInstanceAs (Decidable (_ ∧ _ ∧ _ ∧ _))

/-- A path all of whose pieces are plain. -/
def PlainPath (path : Text) : Prop := ∀ piece ∈ Text.splitAt '/' path, PlainPiece piece

instance : DecidablePred PlainPath := fun _ => inferInstanceAs (Decidable (∀ _ ∈ _, _))

theorem step_of_plain (h : PlainPiece piece) : step steps piece = steps ++ [piece] := by
  obtain ⟨hne, hdot, hdots, _⟩ := h
  simp [step, hne, hdot, hdots]

theorem walkPieces_of_plain (h : ∀ piece ∈ pieces, PlainPiece piece) :
    walkPieces pieces = pieces := by
  induction pieces using List.reverseRecOn with
  | nil => rfl
  | append_singleton pieces piece ih =>
    have hpieces := ih fun p hp => h p (List.mem_append_left _ hp)
    rw [walkPieces] at hpieces ⊢
    rw [List.foldl_append, hpieces, List.foldl_cons, List.foldl_nil]
    exact step_of_plain (h piece (by simp))

/-- The steps of a plain path are its pieces. -/
theorem PlainPath.stepsOf (h : PlainPath path) : stepsOf path = Text.splitAt '/' path :=
  walkPieces_of_plain h

theorem PlainPath.folderOf (h : PlainPath path) :
    folderOf path = (Text.splitAt '/' path).dropLast :=
  walkPieces_of_plain fun piece hp => h piece ((List.dropLast_sublist _).subset hp)

/-! ## One step and many -/

theorem resolveStep_dot (rooted : Bool) (steps : List Text) :
    resolveStep rooted steps ['.'] = steps := by
  simp [resolveStep]

theorem resolveStep_of_plain (h : PlainPiece piece) :
    resolveStep rooted steps piece = steps ++ [piece] := by
  obtain ⟨hne, hdot, hdots, _⟩ := h
  simp [resolveStep, hne, hdot, hdots]

/-- Two dots leave a folder that was entered by name. -/
theorem resolveStep_dots (h : PlainPiece piece) :
    resolveStep rooted (steps ++ [piece]) ['.', '.'] = steps := by
  simp [resolveStep, h.2.2.1]

theorem foldl_resolveStep_of_plain (h : ∀ piece ∈ pieces, PlainPiece piece) :
    pieces.foldl (resolveStep rooted) steps = steps ++ pieces := by
  induction pieces generalizing steps with
  | nil => simp
  | cons piece pieces ih =>
    obtain ⟨hpiece, hpieces⟩ := List.forall_mem_cons.mp h
    rw [List.foldl_cons, resolveStep_of_plain hpiece, ih hpieces, List.append_assoc]
    rfl

/-- As many steps back as there are folders lead out of all of them. -/
theorem foldl_replicate_dots (rooted : Bool) (steps : List Text)
    (h : ∀ piece ∈ start, PlainPiece piece) :
    (List.replicate start.length ['.', '.']).foldl (resolveStep rooted) (steps ++ start) =
      steps := by
  induction start using List.reverseRecOn with
  | nil => simp
  | append_singleton start piece ih =>
    have hlength : (start ++ [piece]).length = start.length + 1 := by simp
    rw [hlength, List.replicate_succ, List.foldl_cons, ← List.append_assoc,
      resolveStep_dots (h piece (by simp))]
    exact ih fun p hp => h p (List.mem_append_left _ hp)

/-- The way from one place to another leads there, from within any folder. -/
theorem foldl_stepsBetween (rooted : Bool) (steps : List Text)
    (hstart : ∀ piece ∈ start, PlainPiece piece) (hstop : ∀ piece ∈ stop, PlainPiece piece) :
    (stepsBetween start stop).foldl (resolveStep rooted) (steps ++ start) = steps ++ stop := by
  fun_induction stepsBetween start stop generalizing steps with
  | case1 start b stop ih =>
    rw [List.append_cons, List.append_cons steps b stop]
    exact ih _ (List.forall_mem_cons.mp hstart).2 (List.forall_mem_cons.mp hstop).2
  | case2 a start b stop _ =>
    have hback := foldl_replicate_dots rooted steps hstart
    rw [List.length_cons] at hback
    rw [List.foldl_append, hback, foldl_resolveStep_of_plain hstop]
  | case3 start stop _ =>
    rw [List.foldl_append, foldl_replicate_dots rooted steps hstart,
      foldl_resolveStep_of_plain hstop]

end ApiReference.Page
