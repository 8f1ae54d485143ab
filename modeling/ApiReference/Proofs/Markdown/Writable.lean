import ApiReference.Proofs.Markdown.Quoted
import ApiReference.Proofs.Markdown.Resolve

/-!
# Trees that can be written

The grammar and the writing of a tree each have their own idea of what a node is.  They
agree: a section that the checker accepts is sound, so that nothing in it stops the
replacement of its references, and its text is empty or ends with a line break
(`emit_of_validate`).  Writing itself could only be stopped by an indent that is taken
off and was never put on, which does not happen (`decreaseIndent_noteBox`).
-/

namespace ApiReference.Markdown

open Doc Emission Writer

variable {n : Node} {ns : List Node}

/-- In a tree whose code can be fenced, all texts, links, headings and anchors may stand on a page,
wherever links may lead. -/
theorem pageLeaf_of_opensFence
    (h : ∀ code language, .fencedCode code language ∈ n.inside → opensFence language = true) :
    ∀ m ∈ n.inside, m.isLeaf = true → PageLeaf (fun _ => True) m := by
  intro m hm hleaf
  cases m with
  | fencedCode code language => exact h code language hm
  | linkTag reference? url? text? => cases url? <;> trivial
  | plainText _ | escapedText _ _ | codeSpan _ | softBreak | heading _ _ | anchor _ => trivial
  | paragraph _ | body _ | list _ | emphasis _ _ _ | noteBox _ | tableCell _ | tableRow _
  | table _ _ => cases hleaf

/-- The last line of a text is ended. -/
theorem render_eq_nil_or_getLast? (n : Node) :
    render n = [] ∨ (render n).getLast? = some '\n' := by
  have hwritten : (write false n.trimmed .initial).writer.Coherent :=
    Coherent.empty.grows ((frames_write n.trimmed false).grows .initial)
  have hended := hwritten.grows (.ensureNewLine _)
  exact hended.atLineStart_iff.mp (atLineStart_ensureNewLine hwritten)

/-- The indent of a note box is there to be taken off at its end, whatever was written in it. -/
theorem decreaseIndent_noteBox (ns : List Node) (e : Emission) :
    (writeAll ns (e.lift openNote)).writer.ensureNewLine.decreaseIndent =
      .ok (writeAll ns (e.lift openNote)).writer.ensureNewLine.dropIndent := by
  have hindents := ((frames_writeAll ns).grows (e.lift openNote)).trans (.ensureNewLine _)
    |>.indents_eq
  rw [decreaseIndent, hindents]
  rfl

/-- A section that the checker accepts, of code that can be fenced, can be written whatever its
references lead to. No line of its text is left open, and no indent is missing at the end of a note
box. -/
theorem emit_of_validate (resolver? : Option Resolver)
    (hvalid : Grammar.standard.validate (.body ns) = .ok ())
    (hlanguages : ∀ code language,
      .fencedCode code language ∈ (Node.body ns).inside → opensFence language = true) :
    ∃ text, (emit resolver? (.body ns)).outcome = .ok text ∧
      (text = [] ∨ text.getLast? = some '\n') ∧
      ∀ content (e : Emission),
        (writeAll content (e.lift openNote)).writer.ensureNewLine.decreaseIndent =
          .ok (writeAll content (e.lift openNote)).writer.ensureNewLine.dropIndent := by
  have hsound : Sound (PageLeaf fun _ => True) (.body ns) :=
    Sound.of_validate _ hvalid (by simp [Node.kind]) (pageLeaf_of_opensFence hlanguages)
  have hfinds : Finds resolver? fun _ => True := fun _ _ _ _ _ _ _ => trivial
  obtain ⟨found, hfound, -⟩ := yields_linked hfinds hsound
  refine ⟨render found, ?_, render_eq_nil_or_getLast? found, decreaseIndent_noteBox⟩
  rw [emit, Traced.outcome_bind, hfound]
  rfl

/-- A section with a note that quotes code, a list and a table of notes, and a reference. -/
def quotedSection : List Node := [
  .noteBox [.fencedCode "a\n" (.text "ts"), .list [.plainText "b", .list [.plainText "c"]]],
  .table (Node.titles ["Head"]) [[[.noteBox [.paragraph [.linkTag (some "d") none none]]]]]]

theorem emit_quotedSection :
    ∃ text, (emit none (.body quotedSection)).outcome = .ok text ∧
      (text = [] ∨ text.getLast? = some '\n') ∧
      ∀ content (e : Emission),
        (writeAll content (e.lift openNote)).writer.ensureNewLine.decreaseIndent =
          .ok (writeAll content (e.lift openNote)).writer.ensureNewLine.dropIndent := by
  refine emit_of_validate none rfl fun code language h => ?_
  have hcode : code = "a\n".toList ∧ language = .text "ts" := by
    simpa [quotedSection, Node.inside, Node.insideAll, Node.insideCells, Node.insideRows,
      Node.titles, Node.cell] using h
  rw [hcode.2]
  rfl

end ApiReference.Markdown
