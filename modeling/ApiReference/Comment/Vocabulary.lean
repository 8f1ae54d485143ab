import ApiReference.Config.Default
import ApiReference.Text.Case

/-!
# The tags of comments

Which tags open blocks and which ones mark a declaration is a matter of
configuration.  Tags are compared in upper case, and a modifier is remembered in
the spelling that the configuration gives it.
-/

namespace ApiReference.Comment

/-- The tags that open a block, and those that mark a declaration. Tags are compared in upper
case. -/
structure Vocabulary where
  blockKeys : List Text
  /-- Upper case and configured spelling of each modifier tag. -/
  modifiers : List (Text × Text)
deriving DecidableEq, Repr

namespace Vocabulary

/-- The spelling of the last modifier tag with a key. -/
def modifier? (v : Vocabulary) (key : Text) : Option Text := v.modifiers.reverse.lookup key

def isBlock (v : Vocabulary) (key : Text) : Bool := v.blockKeys.contains key

/-- The tags listed under a key. -/
def tagsOf (settings : Json) (key : Text) : Except Fault (List Text) := do
  let items ← (← settings.index key).elements
  items.mapM Json.asText

/-- The tags that a configuration lists. -/
def ofConfig (config : Json) : Except Fault Vocabulary := do
  let settings ← (Config.orStandard config).index "comment"
  let blocks ← tagsOf settings "block_tags"
  let modifiers ← tagsOf settings "modifier_tags"
  return ⟨blocks.map Text.upper, modifiers.map fun tag => (Text.upper tag, tag)⟩

end Vocabulary

end ApiReference.Comment
