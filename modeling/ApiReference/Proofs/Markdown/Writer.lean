import ApiReference.Markdown.Writer
import ApiReference.Proofs.Text.Lines

/-!
# What a writer writes

A line starts with the indents in force, and a newline is one line feed.  Where no indent
is in force, a text is written as it is, with all its line breaks as line feeds.  Whatever
is written, the writer remembers the last two characters of the text (`Remembers`), and
so a line is ended only where one was begun.
-/

namespace ApiReference.Markdown.Writer

open Text

variable {w w' : Writer} {t : Text} {ts : List Text}

@[simp] theorem text_put (w : Writer) (t : Text) : (w.put t).text = w.text ++ t := by
  simp [put, text]

/-- The indent that is kept is that of the indents in force. -/
theorem indent_congr (h : w.indents = w'.indents) : w.indent = w'.indent := by
  rw [w.indent_eq, h, w'.indent_eq]

@[simp] theorem indents_increaseIndent (w : Writer) (p : Text) :
    (w.increaseIndent p).indents = p :: w.indents := rfl

@[simp] theorem indents_dropIndent (w : Writer) : w.dropIndent.indents = w.indents.tail := rfl

theorem withIndents_self (w : Writer) : w.withIndents w.indents = w := by
  obtain ⟨chunks, tail, atLineStart, indents, indent, rfl⟩ := w
  rfl

@[simp] theorem indents_put (w : Writer) (t : Text) : (w.put t).indents = w.indents := rfl

theorem text_putIndent (w : Writer) :
    w.putIndent.text = w.text ++ if w.atLineStart then w.indent else [] := by
  unfold putIndent
  by_cases hstart : w.atLineStart = true
  · by_cases hindent : w.indent = []
    · simp [hindent]
    · simp [hstart, hindent]
  · simp [hstart]

theorem text_newline_eq (w : Writer) : w.newline.text = w.putIndent.text ++ ['\n'] := text_put _ _

theorem text_part_eq (w : Writer) (h : t ≠ []) : (w.part t).text = w.putIndent.text ++ t := by
  rw [part, if_neg (by simpa using h)]
  exact text_put _ _

theorem putIndent_eq (h : w.indents = []) : w.putIndent = w := by
  simp [putIndent, w.indent_eq, h]

@[simp] theorem indents_putIndent (w : Writer) : w.putIndent.indents = w.indents := by
  unfold putIndent
  split
  · rfl
  · rfl

@[simp] theorem indents_newline (w : Writer) : w.newline.indents = w.indents :=
  indents_putIndent w

@[simp] theorem indents_part (w : Writer) (t : Text) : (w.part t).indents = w.indents := by
  unfold part
  split
  · rfl
  · exact indents_putIndent w

@[simp] theorem indents_parts (w : Writer) (ts : List Text) : (parts ts w).indents = w.indents := by
  fun_induction parts ts w with
  | case1 w => rfl
  | case2 t w => exact indents_part w t
  | case3 t ts w _ ih => rw [ih, indents_newline, indents_part]

@[simp] theorem indents_write (w : Writer) (t : Text) : (w.write t).indents = w.indents :=
  indents_parts w _

theorem text_newline (h : w.indents = []) : w.newline.text = w.text ++ ['\n'] := by
  rw [text_newline_eq, putIndent_eq h]

theorem text_part (h : w.indents = []) (t : Text) : (w.part t).text = w.text ++ t := by
  by_cases hnil : t = []
  · rw [hnil, List.append_nil]
    rfl
  · rw [text_part_eq w hnil, putIndent_eq h]

theorem text_parts (h : w.indents = []) (ts : List Text) :
    (parts ts w).text = w.text ++ join ['\n'] ts := by
  fun_induction parts ts w with
  | case1 w => rw [join_nil, List.append_nil]
  | case2 t w => rw [text_part h, join_singleton]
  | case3 t ts w hne ih =>
    have hpart : (w.part t).indents = [] := by
      rw [indents_part, h]
    have hts : ts ≠ [] := fun hts => hne hts
    rw [ih (by rw [indents_newline, hpart]), text_newline hpart, text_part h, join_cons _ _ hts]
    simp

/-- A text is written with its line breaks as line feeds. -/
theorem text_write (h : w.indents = []) (t : Text) :
    (w.write t).text = w.text ++ unifyNewlines t := by
  rw [write, text_parts h, join_splitAt]

/-- A line is written as it is. -/
theorem text_write_of_oneLine (h : w.indents = []) (ht : OneLine t) :
    (w.write t).text = w.text ++ t := by
  rw [text_write h, unifyNewlines_eq ht]

theorem last?_newline (w : Writer) : w.newline.last? = some '\n' := by
  unfold newline put last? lastOf
  dsimp only
  rw [List.getLast?_drop]
  split
  · rename_i hlen
    simp at hlen
    omega
  · exact List.getLast?_concat

theorem ensureNewLine_newline (w : Writer) : w.newline.ensureNewLine = w.newline := by
  rw [ensureNewLine, last?_newline]
  rfl

/-! ## The last characters -/

theorem lastOf_lastOf_append (n : Nat) (s t : Text) :
    lastOf n (lastOf n s ++ t) = lastOf n (s ++ t) := by
  have hsplit : s = s.take (s.length - n) ++ lastOf n s := (List.take_append_drop _ s).symm
  have hlen : (lastOf n s).length = s.length - (s.length - n) := List.length_drop
  conv_rhs => rw [hsplit, List.append_assoc, lastOf, List.drop_append]
  have hnone : (s.take (s.length - n)).drop
      ((s.take (s.length - n) ++ (lastOf n s ++ t)).length - n) = [] := by
    apply List.drop_eq_nil_of_le
    simp only [List.length_append, List.length_take, hlen]
    omega
  rw [hnone, List.nil_append, lastOf]
  congr 1
  simp only [List.length_append, List.length_take, hlen]
  omega

/-- The writer remembers the last two characters of its text. -/
def Remembers (w : Writer) : Prop := w.tail = lastOf 2 w.text

namespace Remembers

theorem put (h : w.Remembers) (t : Text) : (w.put t).Remembers := by
  rw [Remembers, text_put]
  unfold Writer.put
  rw [h, lastOf_lastOf_append]

theorem putIndent (h : w.Remembers) : w.putIndent.Remembers := by
  unfold Writer.putIndent
  split
  · exact h.put _
  · exact h

theorem newline (h : w.Remembers) : w.newline.Remembers := h.putIndent.put ['\n']

theorem part (h : w.Remembers) (t : Text) : (w.part t).Remembers := by
  unfold Writer.part
  split
  · exact h
  · exact h.putIndent.put t

theorem parts (h : w.Remembers) (ts : List Text) : (Writer.parts ts w).Remembers := by
  fun_induction Writer.parts ts w with
  | case1 w => exact h
  | case2 t w => exact h.part t
  | case3 t ts w _ ih => exact ih (h.part t).newline

theorem write (h : w.Remembers) (t : Text) : (w.write t).Remembers := h.parts _

theorem last?_eq (h : w.Remembers) : w.last? = w.text.getLast? := by
  rw [last?, h, lastOf, List.getLast?_drop]
  split
  · rename_i hlen
    cases ht : w.text with
    | nil => rfl
    | cons c t =>
      rw [ht, List.length_cons] at hlen
      omega
  · rfl

end Remembers

/-- A line that was begun is ended, and then the next one. -/
theorem text_ensureNewLine_newline (hw : w.indents = []) (h : w.Remembers)
    (hline : OneLine w.text) :
    w.ensureNewLine.newline.text = if w.text = [] then ['\n'] else w.text ++ ['\n', '\n'] := by
  rw [ensureNewLine, h.last?_eq]
  split
  · rename_i hnone
    rw [text_newline hw, if_pos (List.getLast?_eq_none_iff.mp hnone),
      List.getLast?_eq_none_iff.mp hnone]
    rfl
  · rename_i hfeed
    exact absurd (List.mem_of_getLast? hfeed) hline.1
  · rename_i hnone _
    have hne : w.text ≠ [] := fun hnil => hnone (List.getLast?_eq_none_iff.mpr hnil)
    rw [text_newline (by rw [indents_newline, hw]), text_newline hw, if_neg hne]
    simp

end ApiReference.Markdown.Writer
