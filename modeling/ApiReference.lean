import ApiReference.Main
import ApiReference.Proofs.Inheritance.Inherited
import ApiReference.Proofs.Inheritance.Resolved
import ApiReference.Proofs.Declaration.Walk
import ApiReference.Proofs.Inheritance.Children
import ApiReference.Proofs.Page.Follow
import ApiReference.Proofs.Page.Links
import ApiReference.Proofs.Diagnostics.Outcome
import ApiReference.Proofs.Doc.Sound
import ApiReference.Proofs.Markdown.Resolve
import ApiReference.Proofs.Comment.Nodes
import ApiReference.Proofs.Declaration.Loaded
import ApiReference.Proofs.Scope.Declared
import ApiReference.Proofs.Inheritance.Declared
import ApiReference.Proofs.Page.Cells
import ApiReference.Proofs.Page.Body
import ApiReference.Proofs.Page.Members
import ApiReference.Proofs.Page.Sheets
import ApiReference.Proofs.Page.Documented
import ApiReference.Proofs.Site.Pages
import ApiReference.Proofs.Markdown.Pipes
import ApiReference.Proofs.Markdown.Writer
import ApiReference.Proofs.Markdown.Cells
import ApiReference.Proofs.Markdown.Table
import ApiReference.Proofs.Comment.Framing
import ApiReference.Proofs.Comment.Passages
import ApiReference.Proofs.Comment.Reading
import ApiReference.Proofs.Comment.RoundTrip
import ApiReference.Proofs.Text.Collapse
import ApiReference.Proofs.Markdown.Escape
import ApiReference.Proofs.Doc.Trim
import ApiReference.Proofs.Doc.Regroup
import ApiReference.Proofs.Comment.Spelling
import ApiReference.Proofs.Comment.Division
import ApiReference.Proofs.Markdown.Paragraph
import ApiReference.Proofs.Inheritance.Hierarchy
import ApiReference.Proofs.Site.Diagrams
import ApiReference.Proofs.Comment.Parts
import ApiReference.Proofs.Comment.Fences
import ApiReference.Proofs.Declaration.Lineage
import ApiReference.Proofs.Scope.TypeMap
import ApiReference.Proofs.Scope.FullNames
import ApiReference.Proofs.Page.Order
import ApiReference.Proofs.Site.PageOrder
import ApiReference.Proofs.Doc.Anchors
import ApiReference.Proofs.Inheritance.Listed
import ApiReference.Proofs.Page.Unmarked
import ApiReference.Proofs.Page.MemberRows
import ApiReference.Proofs.Page.MemberTables
import ApiReference.Proofs.Site.MemberTables
import ApiReference.Proofs.Page.AnchorNames
import ApiReference.Proofs.Inheritance.Paths
import ApiReference.Proofs.Markdown.Operations
import ApiReference.Proofs.Markdown.Frame
import ApiReference.Proofs.Markdown.Quoted
import ApiReference.Proofs.Markdown.Context
import ApiReference.Proofs.Markdown.CodeBlock
import ApiReference.Proofs.Doc.Edits
import ApiReference.Proofs.Markdown.Writable
import ApiReference.Proofs.Text.Lower
import ApiReference.Proofs.Page.Files
import ApiReference.Proofs.Site.PagePaths
import ApiReference.Proofs.Inheritance.Edges
import ApiReference.Proofs.Inheritance.Reordered
import ApiReference.Proofs.Declaration.Pruned
import ApiReference.Proofs.Site.Runs
import ApiReference.Proofs.Scope.Nearest
import ApiReference.Proofs.Scope.Packages
import ApiReference.Proofs.Comment.Vocabulary
import ApiReference.Proofs.Markdown.Readback
import ApiReference.Proofs.Page.MemberLinks
import ApiReference.Proofs.Scope.Selectors
import ApiReference.Proofs.Markdown.Pieces
import ApiReference.Proofs.Markdown.BlankLines
import ApiReference.Proofs.Inheritance.Spine
import ApiReference.Proofs.Page.PageAnchors
import ApiReference.Proofs.Site.Anchors
import ApiReference.Proofs.Scope.Namesakes
import ApiReference.Proofs.Scope.Enclosing
import ApiReference.Proofs.Scope.Layout
import ApiReference.Proofs.Site.Summaries
import ApiReference.Proofs.Comment.ModifierLines
import ApiReference.Proofs.Page.Outline
import ApiReference.Proofs.Markdown.CellCode
import ApiReference.Proofs.Markdown.CodeSpan
import ApiReference.Proofs.Json.Reading
import ApiReference.Proofs.Json.Layers
import ApiReference.Proofs.Config.Keyed
import ApiReference.Proofs.Declaration.Modifiers
