import ApiReference.Proofs.Markdown.Frame

/-!
# Note boxes

A note box is quoted: whatever stands in it, every line that is begun while its mark is
in force starts with the mark, also those inside of code and tables and the empty ones
(`Quoted`).  Newlines and parts of lines keep this and boxes inside of the box only add
marks, so it holds of all that is written (`Quoted.grows`).
-/

namespace ApiReference.Markdown

open Doc Text Emission Writer

variable {w w' : Writer} {start q : Text}

/-- Behind a text stand lines with an indent in front, and the beginning of one more unless a line
starts there. -/
structure Quoted (q start : Text) (w : Writer) : Prop where
  intro ::
  exists_lines : ∃ (lines : List Text) (rest : Text),
    w.text = start ++ lines.flatMap (· ++ ['\n']) ++ rest ∧ (∀ l ∈ lines, OneLine l ∧ q <+: l) ∧
    if w.atLineStart then rest = [] else OneLine rest ∧ q <+: rest

namespace Quoted

/-- Where a line starts nothing is quoted yet. -/
theorem of_atLineStart (q : Text) (h : w.atLineStart = true) : Quoted q w.text w :=
  ⟨[], [], by simp, List.forall_mem_nil _, by rw [if_pos h]⟩

/-- Once the indent is written, a quoted line has begun. -/
theorem putIndent (h : Quoted q start w) (hline : OneLine w.indent) (hq : q <+: w.indent) :
    ∃ (lines : List Text) (rest : Text),
      w.putIndent.text = start ++ lines.flatMap (· ++ ['\n']) ++ rest ∧
      (∀ l ∈ lines, OneLine l ∧ q <+: l) ∧ OneLine rest ∧ q <+: rest := by
  obtain ⟨lines, rest, htext, hlines, hrest⟩ := h.exists_lines
  rw [text_putIndent, htext]
  split at hrest
  · rename_i hstart
    rw [if_pos hstart, hrest, List.append_nil]
    exact ⟨lines, w.indent, rfl, hlines, hline, hq⟩
  · rename_i hstart
    rw [if_neg hstart, List.append_nil]
    exact ⟨lines, rest, rfl, hlines, hrest⟩

theorem newline (h : Quoted q start w) (hline : OneLine w.indent) (hq : q <+: w.indent) :
    Quoted q start w.newline := by
  obtain ⟨lines, rest, htext, hlines, hrest⟩ := h.putIndent hline hq
  refine ⟨lines ++ [rest], [], ?_, List.forall_mem_append.mpr
    ⟨hlines, List.forall_mem_singleton.mpr hrest⟩, rfl⟩
  rw [text_newline_eq, htext]
  simp

theorem part {t : Text} (ht : OneLine t) (h : Quoted q start w) (hline : OneLine w.indent)
    (hq : q <+: w.indent) : Quoted q start (w.part t) := by
  by_cases hnil : t = []
  · rwa [hnil]
  · obtain ⟨lines, rest, htext, hlines, hrest, hqrest⟩ := h.putIndent hline hq
    have hstart : (w.part t).atLineStart = false := by
      simp [Writer.part, hnil]
    refine ⟨lines, rest ++ t, ?_, hlines, ?_⟩
    · rw [text_part_eq w hnil, htext, List.append_assoc]
    · rw [hstart, if_neg Bool.false_ne_true]
      exact ⟨hrest.append ht, hqrest.trans (List.prefix_append _ _)⟩

/-- All that is written under an indent is quoted, whatever indents are added to it. -/
theorem grows (hgrows : Grows w w') (h : Quoted q start w) (hline : OneLine w.indent)
    (hq : q <+: w.indent) : Quoted q start w' := by
  induction hgrows with
  | refl w => exact h
  | trans hfirst _ ih ih' =>
    rw [← hfirst.indent_eq] at hline hq
    exact ih' (ih h (hfirst.indent_eq ▸ hline) (hfirst.indent_eq ▸ hq)) hline hq
  | newline w => exact h.newline hline hq
  | part w ht => exact h.part ht hline hq
  | @indented w w' p hp _ ih =>
    have hindent := indent_increaseIndent w p
    refine ⟨(ih ⟨h.exists_lines⟩ (hindent ▸ hline.append hp) ?_).exists_lines⟩
    exact hindent ▸ hq.trans (List.prefix_append _ _)

end Quoted

/-- A box with links in it is a box. -/
theorem resolveLinks_noteBox {resolver? : Option Resolver} {content : List Node}
    {insideTable : Bool} {found : Node × Bool}
    (h : ((resolveLinks resolver? (.noteBox content)).run insideTable).outcome = .ok found) :
    ∃ ns, found.1 = .noteBox ns := by
  rw [resolveLinks, StateT.run_bind, Traced.outcome_bind] at h
  obtain ⟨inner, -, hinner⟩ := bind_eq_ok.mp h
  cases hinner
  exact ⟨inner.1, rfl⟩

/-- Whatever is written between the start of a box and its end, the box is a block of quoted lines,
and a line with nothing but the indent around the box stands behind it. -/
theorem text_closeNote (hw : w.Coherent) (hline : OneLine w.indent)
    (hgrows : Grows (openNote w) w') :
    ∃ lines : List Text,
      (closeNote w').text = w.text ++ (if w.atLineStart then [] else ['\n']) ++
        (lines ++ [w.indent]).flatMap (· ++ ['\n']) ∧
      ∀ l ∈ lines, OneLine l ∧ w.indent ++ ("> " : Text) <+: l := by
  have hmark : OneLine "> " := ⟨by decide, by decide⟩
  have hindent : w.ensureNewLine.indent = w.indent := (Grows.ensureNewLine w).indent_eq
  have hopen : (openNote w).indent = w.indent ++ ("> " : Text) := by
    rw [openNote, indent_increaseIndent, hindent]
  have hstarted : Quoted (w.indent ++ "> ") w.ensureNewLine.text (openNote w) :=
    Quoted.of_atLineStart (w := openNote w) _ (atLineStart_ensureNewLine hw)
  have hgrows' : Grows (openNote w) w'.ensureNewLine := hgrows.trans (.ensureNewLine w')
  have hopened : (openNote w).Coherent := (hw.grows (.ensureNewLine w)).reindent _
  have hended : w'.ensureNewLine.atLineStart = true :=
    atLineStart_ensureNewLine (hopened.grows hgrows)
  have hquoted := hstarted.grows hgrows' (hopen ▸ hline.append hmark) (hopen ▸ List.prefix_rfl)
  obtain ⟨lines, rest, htext, hlines, hrest⟩ := hquoted.exists_lines
  rw [if_pos hended] at hrest
  have hclosed : w'.ensureNewLine.dropIndent.indent = w.indent := by
    exact (indent_congr (congrArg List.tail hgrows'.indents_eq)).trans hindent
  refine ⟨lines, ?_, hlines⟩
  calc (closeNote w').text
      = w'.ensureNewLine.text ++ w.indent ++ ['\n'] := by
        rw [closeNote, text_newline_eq, text_putIndent, hclosed]
        exact congrArg (w'.ensureNewLine.text ++ · ++ ['\n']) (if_pos hended)
    _ = w.ensureNewLine.text ++ (lines ++ [w.indent]).flatMap (· ++ ['\n']) := by
        rw [htext, hrest]
        simp
    _ = _ := by rw [text_ensureNewLine hw]

/-- Whatever a note box holds, and wherever it stands, it starts on a line of its own and is written
as lines that all start with the indent and its mark, and a line with nothing but the indent behind
them. The indents are then as they were. -/
theorem noteBox_quoted (operations : List Operation) (insideTable : Bool) (listLevel : Nat)
    (resolver? : Option Resolver) (followed : Bool) (content : List Node) {e : Emission}
    (hindent : OneLine (Writer.empty.run operations).indent)
    (h : (written resolver? followed (.noteBox content)
      ⟨Writer.empty.run operations, insideTable, listLevel⟩).outcome = .ok e) :
    let w := Writer.empty.run operations
    ∃ lines : List Text,
      e.writer.text = w.text ++ (if w.atLineStart then [] else ['\n']) ++
        (lines ++ [w.indent]).flatMap (· ++ ['\n']) ∧
      (∀ l ∈ lines, OneLine l ∧ w.indent ++ ("> " : Text) <+: l) ∧
      e.writer.indents = w.indents := by
  intro w
  have hw : w.Coherent := Coherent.empty.run operations
  obtain ⟨found, hfound, rfl⟩ := written_eq_ok.mp h
  obtain ⟨ns, hns⟩ := resolveLinks_noteBox hfound
  rw [hns]
  obtain ⟨lines, htext, hlines⟩ := text_closeNote hw hindent
    ((frames_writeAll (trimmedAll ns)).grows ⟨openNote w, insideTable, listLevel⟩)
  exact ⟨lines, htext, hlines, ((frames_write (.noteBox _) followed).grows _).indents_eq⟩

theorem noteBox_quoted_nested :
    let operations : List Operation := [.increaseIndent "  ", .writeLine "before", .write "it"]
    let w := Writer.empty.run operations
    let content : List Node := [.heading "Note" .top, .fencedCode "a\r\n\n\nb\n" .null,
      .list [.plainText "item", .list [.plainText "deeper"]],
      .noteBox [.paragraph [.plainText "in"]],
      .table [Node.cell (.plainText "head")] [[[.fencedCode "a\nb" .null, .noteBox []]]]]
    OneLine w.indent ∧ ∃ e, (written none true (.noteBox content) ⟨w, false, 1⟩).outcome = .ok e ∧
      ∃ lines : List Text,
        e.writer.text = w.text ++ (if w.atLineStart then [] else ['\n']) ++
          (lines ++ [w.indent]).flatMap (· ++ ['\n']) ∧
        (∀ l ∈ lines, OneLine l ∧ w.indent ++ ("> " : Text) <+: l) ∧
        e.writer.indents = w.indents := by
  intro operations w content
  have hindent : OneLine w.indent := ⟨by decide, by decide⟩
  exact ⟨hindent, _, rfl, noteBox_quoted operations false 1 none true content hindent rfl⟩

end ApiReference.Markdown
