import ApiReference.Scope.Resolve
import ApiReference.Text.Blank
import ApiReference.Text.Quoted

/-!
# Declaration references

A reference in a comment lists names with selectors and parentheses around them.
The longest prefix that names a type counts, and the other names are members below
it.
-/

namespace ApiReference.Scope

open Declaration

/-- Drops selectors such as `:static`. `inside` tells that the text goes on with the word of one. -/
def dropSelectors (inside : Bool) : Text → Text
  | [] => []
  | c :: t =>
    if inside && Text.isWord c then dropSelectors true t
    else if c = ':' && t.head?.any Text.isWord then dropSelectors true t
    else c :: dropSelectors false t

def isGroupChar (c : Char) : Bool := Text.isWord c || c == '$'

/-- The word that a text goes on with up to a closing parenthesis, and what follows that. -/
def group? (t : Text) : Option (Text × Text) :=
  let t := Text.trimStart t
  match Text.trimStart (t.dropWhile isGroupChar) with
  | ')' :: rest => some (t.takeWhile isGroupChar, rest)
  | _ => none

theorem group?_length {t : Text} {found : Text × Text} (h : group? t = some found) :
    found.2.length < t.length := by
  have h1 := (List.dropWhile_sublist Text.isBlank (l := t)).length_le
  simp only [group?, Text.trimStart] at h
  have h2 := (List.dropWhile_sublist isGroupChar (l := t.dropWhile Text.isBlank)).length_le
  have h3 := (List.dropWhile_sublist Text.isBlank
    (l := (t.dropWhile Text.isBlank).dropWhile isGroupChar)).length_le
  split at h
  · rename_i rest hr
    cases h
    rw [hr] at h3
    simp only [List.length_cons] at h3 ⊢
    omega
  · cases h

/-- Replaces every parenthesised word by the word. -/
def openGroups : Text → Text
  | [] => []
  | c :: t =>
    if c = '(' then
      match _h : group? t with
      | some found => found.1 ++ openGroups found.2
      | none => c :: openGroups t
    else c :: openGroups t
termination_by t => t.length
decreasing_by
  · have := group?_length _h
    simp only [List.length_cons]
    omega
  · simp
  · simp

/-- Only package names have such characters. -/
def isPackageChar (c : Char) : Bool := c == '@' || c == '/' || c == '-'

/-- A reference without the package in front of its `#`. In front of one stands a package name or
else a declaration, whose member follows. -/
def dropPackage (package? : Option Text) (reference : Text) : Text :=
  match Text.cut '#' reference with
  | (_, none) => reference
  | (before, some rest) =>
    if before.any isPackageChar || package? == some before then rest else before ++ '.' :: rest

/-- The names that a reference lists, outermost first. -/
def segments (package? : Option Text) (reference : Text) : List Text :=
  let t := dropPackage package? (Text.trim reference)
  let t := openGroups (dropSelectors false (t.map fun c => if c = '~' then '.' else c))
  ((Text.splitAt '.' t).map Text.trim).filter fun s => !s.isEmpty

/-- The first exported declaration with a name. -/
def findExport? (root : Declaration) (container : Address) (name : Text) : Option Address :=
  (root.exportsAt container).find? fun a => root.nameAt a == name

/-- The type that the first `count` or fewer names stand for, as many as possible, and the names
after those. -/
def longestType? (lookup : Text → Option Address) (names : List Text) :
    Nat → Option (Address × List Text)
  | 0 => none
  | count + 1 =>
    match lookup (Text.join "." (names.take (count + 1))) with
    | some a => some (a, names.drop (count + 1))
    | none => longestType? lookup names count

/-- Goes from a declaration down the given names. -/
def descend (root : Declaration) : Address → List Text → Except Text Address
  | a, [] => .ok a
  | a, name :: names =>
    match findExport? root a name with
    | some b => descend root b names
    | none => .error (root.scopedName a ++ " has no member " ++ Text.quoted name)

/-- The type of a name as it is seen from a declaration, or from outside. -/
def lookupFrom (root : Declaration) (types : TypeMap) (context? : Option Address) (name : Text) :
    Option Address :=
  match context? with
  | some context => resolve root types context name
  | none => types.lookup name

/-- The declaration that a reference leads to, or why there is none. -/
def reference (root : Declaration) (types : TypeMap) (context? : Option Address)
    (reference : Text) : Except Text Address :=
  let package? := context?.bind fun context => root.packageOf? context
  match segments (package?.map root.nameAt) reference with
  | [] => .error ("Empty declaration reference " ++ Text.quoted reference)
  | first :: rest =>
    let names := first :: rest
    match longestType? (lookupFrom root types context?) names names.length with
    | some (a, names) => descend root a names
    | none =>
      match package?.bind fun package => findExport? root package first with
      | some a => descend root a rest
      | none => .error ("The package does not have an export " ++ Text.quoted first)

end ApiReference.Scope
