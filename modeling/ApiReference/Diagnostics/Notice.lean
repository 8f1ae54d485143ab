import ApiReference.Json.Display

/-!
# Notices

What a run tells without stopping, each notice with its level and its wording.
-/

namespace ApiReference

/-- How grave a notice is. -/
inductive Level where
  | debug | info | warning | error
deriving DecidableEq, Repr

namespace Level

def name : Level → Text
  | debug => "DEBUG"
  | info => "INFO"
  | warning => "WARNING"
  | error => "ERROR"

/-- The number that thresholds are compared with. -/
def rank : Level → Int
  | debug => 10
  | info => 20
  | warning => 30
  | error => 40

end Level

/-- What a run tells about its work without stopping. -/
inductive Notice where
  | skippedMember (name kind : Json) (file : Text)
  | unknownTag (name : Text)
  | unreadBaseType (text owner : Text)
  | undeclaredBaseType (name owner : Text)
  | duplicateType (name : Text)
  | unlinkableType (text owner : Text)
  | noResolver (reference : Text)
  | unresolvedReference (reason : Text)
  | noLinkText (reference : Text)
  | builtPages (count : Nat) (package : Text)
  | loading (file : Text)
  | overwriting (file : Text)
  | failed (reason : Text)
deriving Repr

namespace Notice

def level : Notice → Level
  | unknownTag _ | unreadBaseType _ _ | undeclaredBaseType _ _ | unlinkableType _ _ => .debug
  | builtPages _ _ | loading _ => .info
  | skippedMember _ _ _ | duplicateType _ | noResolver _ | unresolvedReference _ | noLinkText _
  | overwriting _ => .warning
  | failed _ => .error

def message : Notice → Text
  | skippedMember name kind file =>
    "Skipping " ++ name.inspect ++ " with unknown kind " ++ kind.inspect ++ " in " ++ file
  | unknownTag name => "Keeping unknown tag @" ++ name ++ " as text"
  | unreadBaseType text owner =>
    "Cannot parse base type " ++ Text.quoted text ++ " of " ++ owner
  | undeclaredBaseType name owner =>
    "Base type " ++ name ++ " of " ++ owner ++ " is not declared in this package"
  | duplicateType name => "Duplicate type for " ++ name
  | unlinkableType text owner =>
    "Type " ++ Text.quoted text ++ " used by " ++ owner ++ " is not linkable"
  | noResolver reference =>
    "Unable to resolve reference " ++ reference ++ ": no resolver configured"
  | unresolvedReference reason => "Unable to resolve reference: " ++ reason
  | noLinkText reference => "Unable to determine link text for " ++ reference
  | builtPages count package =>
    "Built " ++ Text.ofNat count ++ " pages for " ++ package
  | loading file => "Loading " ++ file
  | overwriting file => "Overwriting " ++ file
  | failed reason => reason

end Notice

end ApiReference
