import ApiReference.Text.Basic

/-!
# Kinds and release tags of declarations

The kinds of declarations with their names, the groups of kinds that are treated
alike, and how mature a declaration is.
-/

namespace ApiReference.Declaration

/-- The kinds of declarations in a package description. -/
inductive Kind where
  | model | package | entryPoint | nameSpace | classType | interfaceType | enumType | enumMember
  | method | methodSignature | property | propertySignature | function | variableDecl | typeAlias
  | constructorDecl | constructSignature | callSignature | indexSignature
deriving DecidableEq, Repr

namespace Kind

/-- Every kind with the name that documents and messages call it by. -/
def names : List (Text × Kind) := [
  ("Model", model), ("Package", package), ("EntryPoint", entryPoint), ("Namespace", nameSpace),
  ("Class", classType), ("Interface", interfaceType), ("Enum", enumType),
  ("EnumMember", enumMember), ("Method", method), ("MethodSignature", methodSignature),
  ("Property", property), ("PropertySignature", propertySignature), ("Function", function),
  ("Variable", variableDecl), ("TypeAlias", typeAlias), ("Constructor", constructorDecl),
  ("ConstructSignature", constructSignature), ("CallSignature", callSignature),
  ("IndexSignature", indexSignature)]

def ofName? (name : Text) : Option Kind := names.lookup name

def name (kind : Kind) : Text :=
  match names.find? (·.2 == kind) with
  | some entry => entry.1
  | none => []

theorem ofName?_name (kind : Kind) : ofName? kind.name = some kind := by
  cases kind <;> decide

/-- Containers that add nothing to names and paths. -/
def isRoot : Kind → Bool
  | model | package | entryPoint => true
  | _ => false

/-- Kinds that a type name can refer to. -/
def isType : Kind → Bool
  | classType | interfaceType | enumType | typeAlias => true
  | _ => false

/-- Kinds that extend or implement other types. -/
def isInheriting : Kind → Bool
  | classType | interfaceType => true
  | _ => false

def isMethod : Kind → Bool
  | method | methodSignature => true
  | _ => false

def isProperty : Kind → Bool
  | property | propertySignature => true
  | _ => false

/-- Kinds that carry a parameter list. -/
def takesParameters : Kind → Bool
  | method | methodSignature | function | constructorDecl | constructSignature | callSignature
  | indexSignature => true
  | _ => false

/-- Kinds that carry a return type. -/
def returnsValue : Kind → Bool
  | method | methodSignature | function | callSignature | constructSignature | indexSignature =>
    true
  | _ => false

end Kind

/-- How mature a declaration is. -/
inductive ReleaseTag where
  | none | internal | alpha | beta | published
deriving DecidableEq, Repr

namespace ReleaseTag

def names : List (Text × ReleaseTag) :=
  [("None", none), ("Internal", internal), ("Alpha", alpha), ("Beta", beta), ("Public", published)]

def ofName? (name : Text) : Option ReleaseTag := names.lookup name

def name (tag : ReleaseTag) : Text :=
  match names.find? (·.2 == tag) with
  | some entry => entry.1
  | Option.none => []

theorem ofName?_name (tag : ReleaseTag) : ofName? tag.name = some tag := by
  cases tag <;> decide

end ReleaseTag

end ApiReference.Declaration
