import ApiReference.Proofs.Markdown.BlankLines
import ApiReference.Proofs.Markdown.Cells
import ApiReference.Proofs.Markdown.Frame
import ApiReference.Proofs.Markdown.Readback

/-!
# Items of lists

An item of a list is written on a line of its own, behind spaces for its depth and a
bullet (`ended_item`).  This holds of every node that is written as one line there
(`WrittenAs`): of plain text, of bold text and of links, if nothing in them breaks the
line.  A list among the items of another one adds nothing but its own items
(`ended_list`).
-/

namespace ApiReference.Markdown

open Doc Text Emission

variable {w : Writer} {e : Emission} {n : Node} {s t target : Text} {ns : List Node}

/-! ## Plain text -/

/-- What a line of plain text is written as behind a character. -/
def plainLine (last? : Option Char) (t : Text) : Text :=
  if (trim t).isEmpty then t
  else
    let blanks := t.takeWhile isBlank
    blanks ++ (if isSafeBefore (blanks.getLast?.or last?) then [] else "<!-- -->") ++
      escape (trim t) ++ (t.reverse.takeWhile isBlank).reverse

theorem oneLine_plainLine (h : OneLine t) (last? : Option Char) : OneLine (plainLine last? t) := by
  have hblanks := (piped_takeWhile h).oneLine
  have hrest := (piped_takeWhile_reverse h).oneLine
  have hmark : OneLine (if isSafeBefore ((t.takeWhile isBlank).getLast?.or last?) then []
      else "<!-- -->") := by
    split
    · exact .nil
    · decide
  unfold plainLine
  split
  · exact h
  · exact ((hblanks.append hmark).append (piped_escape h.trim).oneLine).append hrest

theorem text_plainText (hw : w.Coherent) (hindents : w.indents = []) (h : OneLine t) :
    (plainText t w).text = w.text ++ plainLine w.last? t := by
  have hblanks := (piped_takeWhile h).oneLine
  have hrest := (piped_takeWhile_reverse h).oneLine
  have htext : (w.write (t.takeWhile isBlank)).text = w.text ++ t.takeWhile isBlank :=
    Writer.text_write_of_oneLine hindents hblanks
  have hlast : (w.write (t.takeWhile isBlank)).last? =
      (t.takeWhile isBlank).getLast?.or w.last? := by
    rw [(hw.grows (.write w _)).remembers.last?_eq, htext, List.getLast?_append,
      hw.remembers.last?_eq]
  unfold plainText plainLine
  dsimp only
  rw [hlast]
  split
  · exact Writer.text_write_of_oneLine hindents h
  · have hmarked : ∀ u, Writer.indents u = [] →
        (((u.write (escape (trim t))).write (t.reverse.takeWhile isBlank).reverse)).text =
          u.text ++ (escape (trim t) ++ (t.reverse.takeWhile isBlank).reverse) := by
      intro u hu
      rw [Writer.text_write_of_oneLine (by rw [Writer.indents_write, hu]) hrest,
        Writer.text_write_of_oneLine hu (piped_escape h.trim).oneLine, List.append_assoc]
    have hopen : (w.write (t.takeWhile isBlank)).indents = [] := by
      rw [Writer.indents_write, hindents]
    split
    · rw [hmarked _ hopen, htext]
      simp
    · rw [hmarked _ (by rw [Writer.indents_write, hopen]),
        Writer.text_write_of_oneLine hopen (by decide), htext]
      simp

/-! ## Nodes of one line -/

/-- A node that is written as it is: trimming changes nothing, and it has no references. -/
structure Settled (n : Node) : Prop where
  trimmed : n.trimmed = n
  resolved : ∀ resolver?, resolveLinks resolver? n = pure n

theorem resolveAll_of_settled (resolver? : Option Resolver) (h : ∀ n ∈ ns, Settled n) :
    resolveAll resolver? ns = pure ns := by
  induction ns with
  | nil => rfl
  | cons n ns ih =>
    obtain ⟨hn, hns⟩ := List.forall_mem_cons.mp h
    rw [resolveAll, hn.resolved, pure_bind, ih hns, pure_bind]

namespace Settled

theorem list (h : ∀ n ∈ ns, Settled n) : Settled (.list ns) where
  trimmed := by
    rw [Node.trimmed, trimmedAll_eq_map, List.map_congr_left fun n hn => (h n hn).trimmed,
      List.map_id']
  resolved resolver? := by
    rw [resolveLinks, resolveAll_of_settled resolver? h, pure_bind]

theorem emit_eq (h : Settled n) (resolver? : Option Resolver) :
    emit resolver? n = pure (write false n .initial).writer.ensureNewLine.text := by
  have hlinked : linked resolver? n = pure n := by
    rw [linked, h.resolved]
    rfl
  rw [emit, hlinked, pure_bind, render, h.trimmed]

end Settled

/-- A node that is written as one line behind a space. -/
structure WrittenAs (n : Node) (t : Text) : Prop extends Settled n where
  oneLine : OneLine t
  notList : n.kind ≠ .list
  text_write : ∀ e : Emission, e.writer.Coherent → e.writer.indents = [] →
    e.writer.last? = some ' ' → (write false n e).writer.text = e.writer.text ++ t

namespace WrittenAs

theorem plainText (h : OneLine t) : WrittenAs (.plainText t) (plainLine (some ' ') t) where
  trimmed := rfl
  resolved _ := rfl
  oneLine := oneLine_plainLine h _
  notList := by rintro ⟨⟩
  text_write e he hindents hlast := by
    rw [← hlast]
    exact text_plainText he hindents h

theorem bold (h : OneLine t) :
    WrittenAs (.bold t) (("<b>" : Text) ++ plainLine (some '>') t ++ ("</b>" : Text)) where
  oneLine := ((show OneLine "<b>" by decide).append
    (oneLine_plainLine h _)).append (by decide)
  notList := by rintro ⟨⟩
  trimmed := rfl
  resolved _ := rfl
  text_write e he hindents _ := by
    have hopen : (e.writer.write "<b>").text = e.writer.text ++ ("<b>" : Text) :=
      Writer.text_write_of_oneLine hindents (by decide)
    have hopened : (e.writer.write "<b>").Coherent := he.grows (.write _ _)
    have hnone : (e.writer.write "<b>").indents = [] := by
      rw [Writer.indents_write, hindents]
    have hlast : (e.writer.write "<b>").last? = some '>' := by
      rw [hopened.remembers.last?_eq, hopen, List.getLast?_append]
      rfl
    have hinside := text_plainText hopened hnone h
    have hgrows := (step_plainText t).grows (e.writer.write "<b>")
    have hclose := Writer.text_write_of_oneLine (hgrows.indents_eq.trans hnone)
      (show OneLine "</b>" by decide)
    rw [hinside, hopen, hlast, List.append_assoc, List.append_assoc] at hclose
    exact hclose

theorem link (h : OneLine target) (hne : target ≠ []) (label : Text) :
    WrittenAs (.link target label) (linkText label target) where
  oneLine := by
    have hlabel := (piped_escape (oneLine_collapse label)).oneLine
    have hopen : OneLine ("[" : Text) := by decide
    have hturn : OneLine ("](" : Text) := by decide
    exact (hopen.append hlabel).append ((hturn.append h).append (by decide))
  notList := by rintro ⟨⟩
  trimmed := rfl
  resolved _ := by
    cases target with
    | nil => exact absurd rfl hne
    | cons c target => rfl
  text_write e _ hindents _ := by
    rw [write_link hne]
    exact (text_link e.writer label h).trans (by rw [Writer.putIndent_eq hindents])

end WrittenAs

/-! ## Items -/

/-- The line of an item at a depth. -/
def itemLine (depth : Nat) (t : Text) : Text := List.replicate (4 * depth) ' ' ++ '-' :: ' ' :: t

theorem oneLine_itemLine (h : OneLine t) (depth : Nat) : OneLine (itemLine depth t) := by
  have hspaces : OneLine (List.replicate (4 * depth) ' ') := by
    constructor
    · exact fun hmem => absurd (List.eq_of_mem_replicate hmem) (by decide)
    · exact fun hmem => absurd (List.eq_of_mem_replicate hmem) (by decide)
  have hbullet : OneLine ['-', ' '] := by decide
  exact hspaces.append (hbullet.append h)

/-- The text with its last line ended. -/
def ended (e : Emission) : Text := e.writer.ensureNewLine.text

/-- An item is a line of its own behind what was written before. -/
theorem ended_item (he : e.writer.Coherent) (hindents : e.writer.indents = [])
    (h : WrittenAs n t) :
    ended (write false n (bullet e)) =
      ended e ++ (itemLine (e.listLevel - 1) t ++ ['\n']) := by
  have hstart : (List.replicate (4 * (e.listLevel - 1)) ' ' ++ ['-', ' ']).getLast? =
      some ' ' := List.getLast?_append_of_ne_nil _ (List.cons_ne_nil _ _)
  have hmark : OneLine (List.replicate (4 * (e.listLevel - 1)) ' ' ++ ['-', ' ']) :=
    oneLine_itemLine .nil _
  have hopen : (bullet e).writer.indents = [] := (frames_bullet.grows e).indents_eq.trans hindents
  have hbullet : (bullet e).writer.text =
      ended e ++ (List.replicate (4 * (e.listLevel - 1)) ' ' ++ ['-', ' ']) :=
    Writer.text_write_of_oneLine ((Writer.Grows.ensureNewLine _).indents_eq.trans hindents) hmark
  have hcoherent : (bullet e).writer.Coherent := he.grows (frames_bullet.grows e)
  have hlast : (bullet e).writer.last? = some ' ' := by
    rw [hcoherent.remembers.last?_eq, hbullet, List.getLast?_append, hstart]
    rfl
  have htext : (write false n (bullet e)).writer.text =
      ended e ++ itemLine (e.listLevel - 1) t := by
    rw [h.text_write _ hcoherent hopen hlast, hbullet, itemLine]
    simp
  have hwritten := hcoherent.grows ((frames_write n false).grows (bullet e))
  have hbegun : ¬ (write false n (bullet e)).writer.atLineStart = true := by
    have hline := oneLine_itemLine h.oneLine (e.listLevel - 1)
    have hne : itemLine (e.listLevel - 1) t ≠ [] :=
      List.append_ne_nil_of_right_ne_nil _ (List.cons_ne_nil _ _)
    rw [hwritten.atLineStart_iff, htext, List.getLast?_append_of_ne_nil _ hne]
    rintro (hnil | hfeed)
    · exact hne (List.append_eq_nil_iff.mp hnil).2
    · exact hline.1 (List.mem_of_getLast? hfeed)
  rw [ended, Writer.text_ensureNewLine hwritten, if_neg hbegun, htext, List.append_assoc]

theorem writeItems_append (ns ns' : List Node) (e : Emission) :
    writeItems (ns ++ ns') e = writeItems ns' (writeItems ns e) := by
  induction ns generalizing e with
  | nil => rfl
  | cons n ns ih => rw [List.cons_append, writeItems, ih, writeItems]

/-- A list among the items of another one is its own items, one level deeper. -/
theorem ended_list (hlevel : 0 < e.listLevel) (ns : List Node) :
    ended (writeItems [.list ns] e) =
      ended (writeItems ns { e with listLevel := e.listLevel + 1 }) := by
  have hone : writeItems [.list ns] e = closeList (writeItems ns (openList e)) := rfl
  have hopen : openList e = { e with listLevel := e.listLevel + 1 } := if_neg (by simp; omega)
  have hinside := (frames_writeItems ns).listLevel_eq { e with listLevel := e.listLevel + 1 }
  have hback : ¬ e.listLevel + 1 - 1 = 0 := by omega
  rw [hone, hopen, closeList, hinside]
  dsimp only
  rw [if_neg hback]
  rfl

/-! ## Whole lists -/

/-- Where a line was written last, none was skipped. -/
theorem not_skipped_of_ended (hw : w.Coherent) (h : w.ensureNewLine.text = s ++ (t ++ ['\n']))
    (ht : OneLine t) (hne : t ≠ []) : ¬ Writer.Skipped w.text := by
  intro hskipped
  have hstart : w.atLineStart = true := by
    refine hw.atLineStart_iff.mpr (hskipped.imp id ?_)
    rintro ⟨before, hbefore⟩
    rw [← hbefore, List.append_cons before '\n' ['\n']]
    exact List.getLast?_concat
  rw [Writer.text_ensureNewLine hw, if_pos hstart, List.append_nil, ← List.append_assoc] at h
  rw [h, Writer.skipped_concat_newline, List.getLast?_append_of_ne_nil _ hne] at hskipped
  exact ht.1 (List.mem_of_getLast? hskipped)

/-- A list that is in no other one stands between blank lines. -/
theorem text_write_list (he : e.writer.Coherent) (hindents : e.writer.indents = [])
    (hlevel : e.listLevel = 0) (followed : Bool)
    (h : ended (writeItems ns ⟨e.writer.ensureSkippedLine, e.insideTable, 1⟩) =
      s ++ (t ++ ['\n'])) (ht : OneLine t) (hne : t ≠ []) :
    (write followed (.list ns) e).writer.text = s ++ (t ++ ['\n']) ++ ['\n'] := by
  have hopen : openList e = ⟨e.writer.ensureSkippedLine, e.insideTable, 1⟩ := by
    unfold openList
    rw [hlevel]
    rfl
  have hskip := Writer.Grows.ensureSkippedLine e.writer
  have hinside := (frames_writeItems ns).grows ⟨e.writer.ensureSkippedLine, e.insideTable, 1⟩
  have hgrows := hskip.trans hinside
  have hlast := not_skipped_of_ended (he.grows hgrows) h ht hne
  have hlevels := (frames_writeItems ns).listLevel_eq ⟨e.writer.ensureSkippedLine, e.insideTable, 1⟩
  rw [write, hopen, closeList, hlevels]
  dsimp only
  rw [if_pos rfl, lift, Writer.ensureSkippedLine_of_not_skipped (he.grows hgrows) hlast,
    Writer.text_newline ((hgrows.trans (.ensureNewLine _)).indents_eq.trans hindents), ← h]
  rfl

end ApiReference.Markdown
