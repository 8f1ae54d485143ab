import ApiReference.Scope.Resolve
import ApiReference.Text.Blank

/-!
# Base type clauses

A clause names a type by a dotted name, perhaps with type arguments.  What cannot
be read as such, or is declared elsewhere, becomes a label.
-/

namespace ApiReference.Scope

open Declaration

/-- A type that others extend: a declaration, or just a name. -/
inductive Ref where
  | declaration (a : Address)
  | label (name : Text)
deriving DecidableEq, Repr

/-- The declaration of a reference. -/
def Ref.address? : Ref → Option Address
  | .declaration a => some a
  | .label _ => none

def isIdentifierStart (c : Char) : Bool := c.isAlpha || c == '_' || c == '$'

def isIdentifierChar (c : Char) : Bool := Text.isWord c || c == '$'

/-- The identifier that a text starts with, and what follows it. -/
def identifier? : Text → Option (Text × Text)
  | [] => none
  | c :: t =>
    if isIdentifierStart c then
      some (c :: t.takeWhile isIdentifierChar, t.dropWhile isIdentifierChar)
    else none

theorem identifier?_length {t : Text} {found : Text × Text} (h : identifier? t = some found) :
    found.2.length < t.length := by
  cases t with
  | nil => cases h
  | cons c t =>
    simp only [identifier?] at h
    split at h
    · cases h
      have := (List.dropWhile_sublist isIdentifierChar (l := t)).length_le
      simp only [List.length_cons]
      omega
    · cases h

/-- What follows a dot and the blanks around it. -/
def afterDot? (t : Text) : Option Text :=
  match Text.trimStart t with
  | '.' :: rest => some (Text.trimStart rest)
  | _ => none

theorem afterDot?_length {t rest : Text} (h : afterDot? t = some rest) :
    rest.length < t.length := by
  have h1 : (Text.trimStart t).length ≤ t.length := (List.dropWhile_sublist Text.isBlank).length_le
  unfold afterDot? at h
  split at h
  · rename_i r hr
    cases h
    have h2 : (Text.trimStart r).length ≤ r.length :=
      (List.dropWhile_sublist Text.isBlank).length_le
    rw [hr] at h1
    simp only [List.length_cons] at h1
    omega
  · cases h

/-- The identifiers that follow one, each after a dot, and what follows them. -/
def moreIdentifiers (t : Text) : List Text × Text :=
  match _h : (afterDot? t).bind identifier? with
  | some found =>
    let more := moreIdentifiers found.2
    (found.1 :: more.1, more.2)
  | none => ([], t)
termination_by t.length
decreasing_by
  obtain ⟨rest, hr, hf⟩ := Option.bind_eq_some_iff.1 _h
  have h1 := afterDot?_length hr
  have h2 := identifier?_length hf
  omega

/-- The dotted name in front of a base type clause. Only type arguments in angle brackets may
follow it. -/
def baseName? (t : Text) : Option Text := do
  let first ← identifier? t
  let more := moreIdentifiers first.2
  let name := Text.join "." (first.1 :: more.1)
  match Text.trimStart more.2 with
  | [] => some name
  | c :: arguments =>
    if c = '<' && arguments.getLast? = some '>' then some name else none

/-- The type that a base type clause of a declaration names. Only an empty clause names none. -/
def baseType (root : Declaration) (types : TypeMap) (origin : Address) (clause : Text) :
    Noted (Option Ref) :=
  let t := Text.trim clause
  if t.isEmpty then return none
  else match baseName? t with
    | none => do
      Noted.note (.unreadBaseType t (root.nameAt origin))
      return some (.label t)
    | some name =>
      match resolve root types origin name with
      | some a => return some (.declaration a)
      | none => do
        Noted.note (.undeclaredBaseType name (root.scopedName origin))
        return some (.label name)

end ApiReference.Scope
