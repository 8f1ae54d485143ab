import ApiReference.Comment.Parse
import ApiReference.Declaration.Basic
import ApiReference.Declaration.Excerpt
import ApiReference.Json.Parser

/-!
# Reading package descriptions

The document of a package becomes a tree of declarations.  A document of unknown
kind is skipped with all that is in it; a member that is no object stops the run.
The fields are read in a fixed order, since the first bad one decides the fault.
-/

namespace ApiReference.Declaration

/-- The items listed in a field, which may be absent. -/
def itemsOf (data : Json) (key : Text) : Except Fault (List Json) := do
  let value ← data.fieldOrNull key
  if value.isPresent then value.elements else return []

/-- The text of a token range in a field. -/
def rangeField (tokens : List Text) (data : Json) (key : Text) : Except Fault Text := do
  rangeText tokens (← data.fieldOrNull key)

/-- The texts of the token ranges listed in a field, without the empty ones. -/
def rangesField (tokens : List Text) (data : Json) (key : Text) : Except Fault (List Text) := do
  let texts ← (← itemsOf data key).mapM (rangeText tokens)
  return texts.filter fun t => !t.isEmpty

def readParameter (tokens : List Text) (data : Json) : Except Fault Parameter := do
  let name := ((← data.field? "parameterName").getD (.text [])).display
  return ⟨name, ← rangeField tokens data "parameterTypeTokenRange"⟩

/-- The types that a class or interface extends. A class names one, an interface any number. -/
def readExtends (kind : Kind) (tokens : List Text) (data : Json) : Except Fault (List Text) :=
  match kind with
  | .classType => do
    let t ← rangeField tokens data "extendsTokenRange"
    return if t.isEmpty then [] else [t]
  | .interfaceType => rangesField tokens data "extendsTokenRanges"
  | _ => return []

/-- The fields that may hold the type of a value; the first one present counts. -/
def valueTypeKeys : List Text :=
  ["propertyTypeTokenRange", "variableTypeTokenRange", "typeTokenRange"]

def readValueType (tokens : List Text) (data : Json) : List Text → Except Fault Text
  | [] => return []
  | key :: keys => do
    match ← data.field? key with
    | some range => rangeText tokens range
    | none => readValueType tokens data keys

/-- Adds the types that the declaration refers to. -/
def readTypes (tokens : List Text) (data : Json) (i : Info) : Except Fault Info := do
  let extendsTypes ← readExtends i.kind tokens data
  let implementsTypes ← rangesField tokens data "implementsTokenRanges"
  let parameters ← (← itemsOf data "parameters").mapM (readParameter tokens)
  let returnType ← rangeField tokens data "returnTypeTokenRange"
  let valueType ← readValueType tokens data valueTypeKeys
  let initializer ← rangeField tokens data "initializerTokenRange"
  return { i with extendsTypes, implementsTypes, parameters, returnType, valueType, initializer }

/-- The release tags that modifiers stand for, the deciding ones first. -/
def releaseModifiers : List (Text × ReleaseTag) :=
  [("beta", .beta), ("alpha", .alpha), ("internal", .internal), ("public", .published)]

/-- The release tag of a declaration: its own, or else what its comment says. -/
def releaseTagOf (own : ReleaseTag) (c : Comment) : ReleaseTag :=
  if own = .none then
    match releaseModifiers.find? fun m => c.hasModifier m.1 with
    | some m => m.2
    | Option.none => .none
  else own

/-- Takes over what a comment says about its declaration. -/
def Info.withComment (i : Info) (c : Comment) : Info :=
  { i with
    comment? := some c
    isEvent := i.isEvent || c.hasModifier "eventProperty"
    releaseTag := releaseTagOf i.releaseTag c }

/-- What the document of a declaration of a known kind tells, apart from its members. -/
def readInfo (config : Json) (kind : Kind) (data : Json) : Traced Info := do
  let tokens ← tokensOf (← data.fieldOrNull "excerptTokens")
  let name := ((← data.fieldOrNull "name").orElse (.text [])).display
  let tag := (← data.fieldOrNull "releaseTag").display
  let static ← data.fieldOrNull "isStatic"
  let overloadIndex ← ((← data.fieldOrNull "overloadIndex").orElse (.int 1)).toInt
  let info : Info := { Info.plain kind name with
    releaseTag := (ReleaseTag.ofName? tag).getD .none
    isStatic := static.isPresent
    overloadIndex
    excerpt := Text.trim tokens.flatten }
  let comment ← data.fieldOrNull "docComment"
  if comment.isPresent then
    readTypes tokens data (info.withComment (← Comment.ofDocument config comment))
  else readTypes tokens data info

/-- The kind that the document of a declaration names. -/
def readKind? (data : Json) : Except Fault (Option Kind) := do
  return Kind.ofName? (← data.fieldOrNull "kind").display

/-- Tells that a document is skipped because of its kind. -/
def noteSkipped (file : Text) (data : Json) : Traced Unit := do
  let name ← data.fieldOrNull "name"
  let kind ← data.fieldOrNull "kind"
  Noted.note (.skippedMember name kind file)

mutual

/-- Reads a declaration with everything inside it; a document of unknown kind is skipped. -/
def ofDocument (config : Json) (file : Text) : Json → Traced (Option Declaration)
  | .object fields => do
    match ← readKind? (.object fields) with
    | none => do
      noteSkipped file (.object fields)
      return none
    | some kind => do
      let info ← readInfo config kind (.object fields)
      let members ← membersField config file info.name fields
      return some ⟨info, members⟩
  | _ => Traced.fail .wrongShape

/-- Reads the members listed among the fields of a document. -/
def membersField (config : Json) (file owner : Text) :
    List (Text × Json) → Traced (List Declaration)
  | [] => return []
  | (key, value) :: fields =>
    if key = "members" then membersOf config file owner value
    else membersField config file owner fields

/-- Reads a list of members, which may be absent. -/
def membersOf (config : Json) (file owner : Text) : Json → Traced (List Declaration)
  | .list items => membersList config file owner items
  | .text (_ :: _) | .object (_ :: _) => Traced.fail (.malformedMember (Text.quoted owner))
  | value => if value.isPresent then Traced.fail .wrongType else return []

def membersList (config : Json) (file owner : Text) : List Json → Traced (List Declaration)
  | [] => return []
  | item :: items => do
    if item.isObject then
      let member? ← ofDocument config file item
      let members ← membersList config file owner items
      return member?.toList ++ members
    else Traced.fail (.malformedMember (Text.quoted owner))

end

/-- Reads the document of a package. -/
def packageOfDocument (config : Json) (file : Text) (document : Json) : Traced Declaration := do
  match document with
  | .object fields =>
    match fields.lookup ("kind" : Text) with
    | some (.text kind) =>
      if kind = Kind.package.name then
        match ← ofDocument config file document with
        | some d => return d
        | none => Traced.fail (.notPackage file)
      else Traced.fail (.notPackage file)
    | _ => Traced.fail (.notPackage file)
  | _ => Traced.fail (.notPackage file)

/-- Reads the text of a package description file. -/
def packageOfText (config : Json) (file text : Text) : Traced Declaration :=
  match Json.parse text with
  | .ok document => packageOfDocument config file document
  | .error (.malformed flaw rest) => Traced.fail (.unparsableFile file (flaw.report text rest))
  | .error .longNumeral => Traced.fail .notNumeral
  | .error .tooDeep => Traced.fail .tooDeep

end ApiReference.Declaration
