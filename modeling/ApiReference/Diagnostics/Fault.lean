import ApiReference.Declaration.Kind
import ApiReference.Doc.Node

/-!
# Faults

All that can stop a run, each cause with what it needs for its wording.  Faults of
documents and pages are reported to the user in a line of their own
(`isReported`); the others are failures of values that nobody expected.
-/

namespace ApiReference

/-- What can stop a run. -/
inductive Fault where
  /-- Fields are asked of a value that is no object, or text work of one that is no text. -/
  | wrongShape
  /-- A value without elements is walked, or one without fields is indexed. -/
  | wrongType
  | missingKey
  /-- A text that spells no whole number, or one of too many digits. -/
  | notNumeral
  /-- A document whose values stand inside each other too deeply. -/
  | tooDeep
  /-- An infinite number where a whole one is needed. -/
  | infiniteNumber
  /-- No level of messages has this name. -/
  | unknownLevel
  /-- A pattern that cannot select files. -/
  | badPattern
  /-- A pattern that starts at the root of all files. -/
  | absolutePattern
  /-- A pattern that names nothing at all. -/
  | emptyPattern
  /-- A path with a character that no file name can have. -/
  | badPath
  /-- A path, or a name in it, with more bytes than files can have. -/
  | longName
  | missingFile
  /-- An address that leads past the members that there are. -/
  | noSuchMember
  /-- A folder stands where a file is read or written. -/
  | folderInPlace
  /-- A file stands where a folder is needed, or on the way to there. -/
  | fileInPlace (direct : Bool)
  /-- The text of a configuration spells no value. -/
  | badConfiguration
  /-- Half of a surrogate pair stands in a text that is to be written or shown. -/
  | unencodable
  | emptyIndentStack
  | headingLevel (level : Int)
  | forbiddenChild (parent child : Doc.Kind)
  | unsupportedNode (kind : Doc.Kind)
  | unsupportedDeclaration (kind : Declaration.Kind)
  | unparsableFile (file reason : Text)
  | notPackage (file : Text)
  /-- A member list of the named declaration holds something else than objects. -/
  | malformedMember (quotedName : Text)
deriving DecidableEq, Repr

namespace Fault

/-- The wording of a fault; faults of odd values have none. -/
def message? : Fault → Option Text
  | headingLevel level =>
    some ("Heading level must be between 1 and 5, got " ++ Text.ofInt level)
  | forbiddenChild parent child =>
    some (child.name ++ " is not allowed inside " ++ parent.name)
  | unsupportedNode kind => some ("Unsupported element kind: " ++ kind.name)
  | unsupportedDeclaration kind => some ("Unsupported API item kind: " ++ kind.name)
  | unparsableFile file reason => some ("Could not parse " ++ file ++ ": " ++ reason)
  | notPackage file => some ("Expected a Package document in " ++ file)
  | malformedMember quotedName => some ("Malformed member of " ++ quotedName)
  | wrongShape | wrongType | missingKey | notNumeral | tooDeep | infiniteNumber | unknownLevel
  | badPattern | absolutePattern | emptyPattern | badPath | longName | missingFile | folderInPlace
  | fileInPlace _ | badConfiguration | unencodable | noSuchMember | emptyIndentStack => none

/-- Faults of documents and page trees, which the command line reports in one line. -/
def isReported : Fault → Bool
  | forbiddenChild _ _ | unsupportedNode _ | unsupportedDeclaration _ | unparsableFile _ _
  | notPackage _ | malformedMember _ => true
  | _ => false

end Fault

end ApiReference
