import ApiReference.Json.Access
import ApiReference.Site.FileTree
import ApiReference.Site.NamePattern

/-!
# File patterns

A pattern selects files by the steps of the ways to them.  A step is one name, or a
pattern of names, or it stands for any number of folders.
-/

namespace ApiReference.Site

/-- One step of a pattern. -/
inductive Step where
  /-- One name, or two dots. -/
  | name (name : Text)
  /-- All names that fit. -/
  | names (pattern : NamePattern)
  /-- Any number of folders. -/
  | anyFolders
  /-- The folder that the steps before have led to. -/
  | here
deriving DecidableEq, Repr

abbrev Pattern := List Step

/-- How a step for any number of folders is written. -/
def anyMark : Text := ['*', '*']

def isWild (c : Char) : Bool := c == '*' || c == '?' || c == '['

def Step.ofText (t : Text) : Step :=
  if t = anyMark then .anyFolders
  else if t.any isWild then .names (NamePattern.ofText t)
  else .name t

namespace Pattern

/-- Reads a pattern. It may not be absolute, and it has to name something below the folder. Two
asterisks have to stand alone in their step. A pattern that ends in a slash selects folders. -/
def ofText (t : Text) : Except Fault Pattern :=
  let steps := stepsShown t
  let closed := t.getLast? == some '/'
  if t.isEmpty then .error .badPattern
  else if t.head? == some '/' then .error .absolutePattern
  else if steps.any fun s => s != anyMark && Text.includes anyMark s then .error .badPattern
  else if steps.isEmpty then .error (if closed then .wrongShape else .emptyPattern)
  else .ok (steps.map Step.ofText ++ if closed then [.here] else [])

/-- The pattern that a configuration gives. A list with a slash in it goes further than others
before it is refused. -/
def ofSetting (value : Json) : Except Fault Pattern :=
  if !value.isPresent then .error .badPattern
  else match value with
    | .text t => ofText t
    | .object _ => .error .missingKey
    | .list items => .error (if items.any isSlash then .wrongShape else .wrongType)
    | _ => .error .wrongType
where
  isSlash : Json → Bool
    | .text t => t == ['/']
    | _ => false

/-- How often a pattern goes back to the folder above. -/
def climbs (p : Pattern) : Nat := p.count (.name back)

/-- How many steps a pattern can go on at most. No path has more steps than bytes. -/
def depth (p : Pattern) : Nat := if p.contains .anyFolders then maxPathBytes else p.length

end Pattern

end ApiReference.Site
