import ApiReference.Doc.Node
import ApiReference.Text.Case

/-!
# Parsed comments

A comment is a summary and the blocks that its tags open.  Remarks, deprecation
and return value occur at most once; parameters and all other blocks are lists in
the order of the comment.  Blocks and modifiers are looked up regardless of case.
-/

namespace ApiReference

open Doc

namespace Comment

/-- The part of a comment that a block tag opens. -/
structure Block where
  /-- The tag as it is written, without its `@`. -/
  tag : Text
  content : List Node
deriving Repr

/-- The part of a comment that documents one parameter. -/
structure ParamBlock extends Block where
  name : Text
deriving Repr

end Comment

/-- A comment taken apart into its blocks. -/
structure Comment where
  summary : List Node
  remarks? : Option Comment.Block
  deprecated? : Option Comment.Block
  returns? : Option Comment.Block
  params : List Comment.ParamBlock
  custom : List Comment.Block
  /-- The modifier tags in their configured spelling, each once. -/
  modifiers : List Text
deriving Repr

namespace Comment

def empty : Comment := ⟨[], none, none, none, [], [], []⟩

/-- A tag name as it is compared: without `@` and regardless of case. -/
def tagKey (tag : Text) : Text := Text.upper (tag.dropWhile (· == '@'))

/-- The custom blocks with a tag, in order. -/
def blocksOf (c : Comment) (tag : Text) : List Block :=
  c.custom.filter fun b => Text.upper b.tag == tagKey tag

/-- The first block that documents a parameter. -/
def paramBlock? (c : Comment) (name : Text) : Option ParamBlock :=
  c.params.find? fun b => b.name == name

def hasModifier (c : Comment) (tag : Text) : Bool :=
  c.modifiers.any fun m => Text.upper m == tagKey tag

end Comment

end ApiReference
