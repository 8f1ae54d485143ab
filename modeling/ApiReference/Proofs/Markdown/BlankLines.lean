import ApiReference.Proofs.Markdown.Operations

/-!
# Blank lines

Where a line is to be skipped, the line in progress is ended and then a blank one, unless
an empty line stands there already (`ensureSkippedLine_of_skipped`).  The writer tells
this by the last two characters, so it does not see that a line with nothing but the
indent is blank too.  Hence the text always ends with a blank line, and skipping a line
twice skips one line only where no indent is in force or the line is an empty one
(`skipped_line_blank`).
-/

namespace ApiReference.Markdown.Writer

open Text

variable {w : Writer} {t : Text} {operations : List Operation}

/-! ## Lines that were skipped -/

/-- A text that ends with a blank line: it is empty or has nothing but the indent. -/
def EndsBlank (indent t : Text) : Prop :=
  ∃ before line, t = before ++ line ++ ['\n'] ∧ (before = [] ∨ before.getLast? = some '\n') ∧
    '\n' ∉ line ∧ (line = [] ∨ line = indent)

/-- There is nothing in front of which to skip a line, or an empty line was skipped. -/
def Skipped (t : Text) : Prop := t = [] ∨ ['\n', '\n'] <:+ t

theorem skipped_concat_newline : Skipped (t ++ ['\n']) ↔ t.getLast? = some '\n' := by
  constructor
  · rintro (hnil | ⟨before, heq⟩)
    · exact absurd hnil (List.append_ne_nil_of_right_ne_nil _ (List.cons_ne_nil _ _))
    · rw [List.append_cons before '\n' ['\n'], List.append_left_inj] at heq
      rw [← heq]
      exact List.getLast?_concat
  · intro h
    obtain ⟨before, rfl⟩ := List.getLast?_eq_some_iff.mp h
    exact .inr ⟨before, List.append_cons before '\n' ['\n']⟩

/-- Where an empty line was skipped, or nothing was written, nothing happens. -/
theorem ensureSkippedLine_of_skipped (hw : w.Coherent) (h : Skipped w.text) :
    w.ensureSkippedLine = w := by
  unfold ensureSkippedLine
  rcases h with hnil | ⟨before, hbefore⟩
  · rw [if_pos (List.isEmpty_iff.mpr (hw.remembers.tail_eq_nil_iff.mpr hnil))]
  · have hlast : w.text.getLast? = some '\n' := by
      rw [← hbefore, List.append_cons before '\n' ['\n']]
      exact List.getLast?_concat
    have hsecond : w.secondLast? = some '\n' := by
      rw [hw.secondLast?_eq, ← hbefore, List.append_cons before '\n' ['\n'], List.dropLast_concat]
      exact List.getLast?_concat
    dsimp only
    rw [ensureNewLine_eq hw, if_pos (hw.atLineStart_iff.mpr (.inr hlast)), if_pos hsecond]
    split
    · rfl
    · rfl

/-- Elsewhere the line in progress is ended, and then one more. -/
theorem ensureSkippedLine_of_not_skipped (hw : w.Coherent) (h : ¬ Skipped w.text) :
    w.ensureSkippedLine = w.ensureNewLine.newline := by
  have hne : w.text ≠ [] := fun hnil => h (.inl hnil)
  have htail : ¬ w.tail.isEmpty = true := by
    rw [List.isEmpty_iff, hw.remembers.tail_eq_nil_iff]
    exact hne
  have hsecond : w.ensureNewLine.secondLast? ≠ some '\n' := by
    have hended : w.ensureNewLine.Coherent := hw.grows (.ensureNewLine w)
    rw [hended.secondLast?_eq, text_ensureNewLine hw]
    split
    · rename_i hstart
      rw [List.append_nil]
      intro hsecond
      obtain ⟨before, hbefore⟩ :=
        List.getLast?_eq_some_iff.mp ((hw.atLineStart_iff.mp hstart).resolve_left hne)
      rw [hbefore, List.dropLast_concat] at hsecond
      exact h (hbefore ▸ skipped_concat_newline.mpr hsecond)
    · rename_i hstart
      rw [List.dropLast_concat]
      exact fun hlast => hstart (hw.atLineStart_iff.mpr (.inr hlast))
  unfold ensureSkippedLine
  dsimp only
  rw [if_neg htail, if_neg hsecond]

/-- The line that is ended in between has nothing but the indent. -/
theorem text_ensureSkippedLine (hw : w.Coherent) (h : ¬ Skipped w.text) :
    ∃ before, w.ensureSkippedLine.text = before ++ w.indent ++ ['\n'] ∧
      before.getLast? = some '\n' := by
  have hended : w.ensureNewLine.Coherent := hw.grows (.ensureNewLine w)
  have hgrows := Grows.ensureNewLine w
  have hstart := atLineStart_ensureNewLine hw
  refine ⟨w.ensureNewLine.text, ?_, ?_⟩
  · rw [ensureSkippedLine_of_not_skipped hw h, text_newline_eq, text_putIndent, if_pos hstart,
      hgrows.indent_eq]
  · refine (hended.atLineStart_iff.mp hstart).resolve_left fun hnil => h (.inl ?_)
    exact List.prefix_nil.mp (hnil ▸ hgrows.text_isPrefix)

/-! ## Skipping a line twice -/

theorem endsBlank_ensureSkippedLine (hw : w.Coherent) (hindent : '\n' ∉ w.indent) :
    w.ensureSkippedLine.text = [] ∨ EndsBlank w.indent w.ensureSkippedLine.text := by
  by_cases h : Skipped w.text
  · rw [ensureSkippedLine_of_skipped hw h]
    refine h.imp id ?_
    rintro ⟨before, hbefore⟩
    refine ⟨before ++ ['\n'], [], ?_, .inr List.getLast?_concat, List.not_mem_nil, .inl rfl⟩
    rw [← hbefore, List.append_nil, List.append_cons before '\n' ['\n']]
  · obtain ⟨before, htext, hbefore⟩ := text_ensureSkippedLine hw h
    exact .inr ⟨before, w.indent, htext, .inr hbefore, hindent, .inr rfl⟩

/-- Behind a skipped line another one is not skipped only if it is empty. -/
theorem skipped_ensureSkippedLine_iff (hw : w.Coherent) (hindent : '\n' ∉ w.indent) :
    Skipped w.ensureSkippedLine.text ↔ w.indent = [] ∨ Skipped w.text := by
  by_cases h : Skipped w.text
  · rw [ensureSkippedLine_of_skipped hw h]
    exact iff_of_true h (.inr h)
  · obtain ⟨before, htext, hbefore⟩ := text_ensureSkippedLine hw h
    rw [htext, skipped_concat_newline, or_iff_left h]
    constructor
    · intro hlast
      by_contra hne
      rw [List.getLast?_append_of_ne_nil _ hne] at hlast
      exact hindent (List.mem_of_getLast? hlast)
    · intro hnil
      rwa [hnil, List.append_nil]

/-- After any operations with indents of one line, skipping a line leaves no text or one that ends
with a blank line. Skipping a line again changes nothing exactly if no indent is in force, nothing
was written or an empty line stood there before. Otherwise one more blank line is written. -/
theorem skipped_line_blank (hindents : ∀ p, .increaseIndent p ∈ operations → '\n' ∉ p) :
    let w := Writer.empty.run operations
    (w.ensureSkippedLine.text = [] ∨ EndsBlank w.indent w.ensureSkippedLine.text) ∧
    (w.ensureSkippedLine.ensureSkippedLine = w.ensureSkippedLine ↔
      w.indent = [] ∨ w.text = [] ∨ ['\n', '\n'] <:+ w.text) ∧
    (¬ (w.indent = [] ∨ w.text = [] ∨ ['\n', '\n'] <:+ w.text) →
      w.ensureSkippedLine.ensureSkippedLine.text =
        w.ensureSkippedLine.text ++ w.indent ++ ['\n']) := by
  intro w
  have hw : w.Coherent := Coherent.empty.run operations
  have hskipped : w.ensureSkippedLine.Coherent := hw.grows (.ensureSkippedLine w)
  have hindent : '\n' ∉ w.indent := by
    intro hmem
    rw [w.indent_eq] at hmem
    obtain ⟨p, hp, hmem⟩ := List.mem_flatten.mp hmem
    rcases mem_indents_run (List.mem_reverse.mp hp) with hp | hp
    · exact absurd hp List.not_mem_nil
    · exact hindents p hp hmem
  have hiff := skipped_ensureSkippedLine_iff hw hindent
  have hagain : ¬ (w.indent = [] ∨ Skipped w.text) →
      w.ensureSkippedLine.ensureSkippedLine.text =
        w.ensureSkippedLine.text ++ w.indent ++ ['\n'] := by
    intro h
    have hmore : ¬ Skipped w.ensureSkippedLine.text := fun hskip => h (hiff.mp hskip)
    have hstart : w.ensureSkippedLine.atLineStart = true := by
      rw [ensureSkippedLine_of_not_skipped hw fun hskip => h (.inr hskip)]
      rfl
    rw [ensureSkippedLine_of_not_skipped hskipped hmore, ensureNewLine_eq hskipped, if_pos hstart,
      text_newline_eq, text_putIndent, if_pos hstart, (Grows.ensureSkippedLine w).indent_eq]
  refine ⟨endsBlank_ensureSkippedLine hw hindent, ⟨fun hsame => ?_, fun h => ?_⟩, hagain⟩
  · by_contra h
    have htext := hagain h
    rw [hsame, List.append_assoc, List.self_eq_append_right] at htext
    exact List.append_ne_nil_of_right_ne_nil _ (List.cons_ne_nil _ _) htext
  · exact ensureSkippedLine_of_skipped hskipped (hiff.mpr h)

/-- A quoted line with an empty line behind it, and then a mark in force. -/
def quotedThenSkipped : List Operation :=
  [.increaseIndent "> ", .writeLine "one", .decreaseIndent, .ensureSkippedLine,
    .increaseIndent "> "]

theorem skipped_line_blank_behind_quote :
    (∀ p, .increaseIndent p ∈ quotedThenSkipped → '\n' ∉ p) ∧
    let w := Writer.empty.run quotedThenSkipped
    (w.ensureSkippedLine.text = [] ∨ EndsBlank w.indent w.ensureSkippedLine.text) ∧
    (w.ensureSkippedLine.ensureSkippedLine = w.ensureSkippedLine ↔
      w.indent = [] ∨ w.text = [] ∨ ['\n', '\n'] <:+ w.text) ∧
    (¬ (w.indent = [] ∨ w.text = [] ∨ ['\n', '\n'] <:+ w.text) →
      w.ensureSkippedLine.ensureSkippedLine.text =
        w.ensureSkippedLine.text ++ w.indent ++ ['\n']) := by
  have hindents : ∀ p, .increaseIndent p ∈ quotedThenSkipped → '\n' ∉ p := by
    intro p hp
    obtain rfl : p = ['>', ' '] := by simpa [quotedThenSkipped] using hp
    decide
  exact ⟨hindents, skipped_line_blank hindents⟩

/-- Under an indent a line is skipped each time. -/
theorem skipped_line_again_in_quote :
    let w := Writer.empty.run [.increaseIndent "> ", .write "one"]
    w.ensureSkippedLine.text = "> one\n> \n" ∧
    w.ensureSkippedLine.ensureSkippedLine.text = "> one\n> \n> \n" ∧
    w.ensureSkippedLine.ensureSkippedLine ≠ w.ensureSkippedLine := by
  decide

end ApiReference.Markdown.Writer
