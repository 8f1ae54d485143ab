import ApiReference.Proofs.Markdown.Cells
import ApiReference.Proofs.Markdown.Escape

/-!
# Paragraphs of text read back

A paragraph of texts, soft breaks and escaped characters is written on one line, from
which its text can be read back with its blanks collapsed (`emit_textParagraph`).
Whatever is written of a text is read back as that text wherever it stands (`Reads`):
blanks as they are, what is visible as it is escaped, and the invisible marks between
the two as nothing, since no mark can be made of escaped text.
-/

namespace ApiReference.Markdown

open Doc Text Emission

variable {n : Node} {ns : List Node} {e : Emission} {w w' w'' : Writer} {s t written : Text}
variable {c : Char}

/-! ## Reading what was written -/

/-- The punctuation of ASCII. -/
def isPunctuation (c : Char) : Bool :=
  let n := c.toNat
  (33 ≤ n && n ≤ 47) || (58 ≤ n && n ≤ 64) || (91 ≤ n && n ≤ 96) || (123 ≤ n && n ≤ 126)

/-- A text without the invisible marks that keep emphasis apart. -/
def withoutMarks : Text → Text
  | [] => []
  | '<' :: '!' :: '-' :: '-' :: ' ' :: '-' :: '-' :: '>' :: t => withoutMarks t
  | c :: t => c :: withoutMarks t

/-- The text that a line of written text stands for. -/
def readBack (line : Text) : Text := unescape isPunctuation (withoutMarks line)

theorem withoutMarks_cons (hc : c ≠ '<') (t : Text) :
    withoutMarks (c :: t) = c :: withoutMarks t := by
  rw [withoutMarks]
  rintro t' rfl
  exact absurd rfl hc

theorem withoutMarks_append (h : '<' ∉ written) (rest : Text) :
    withoutMarks (written ++ rest) = written ++ withoutMarks rest := by
  induction written with
  | nil => rfl
  | cons c written ih =>
    rw [List.mem_cons, not_or] at h
    rw [List.cons_append, withoutMarks_cons (Ne.symm h.1), ih h.2, List.cons_append]

theorem isPunctuation_of_isBackslashed (h : isBackslashed c = true) : isPunctuation c = true :=
  of_isBackslashed rfl h

/-- What is written of a text: a piece of a line that is read back as the text wherever it
stands. -/
structure Reads (written t : Text) : Prop where
  oneLine : OneLine written
  readBack_append : ∀ rest, readBack (written ++ rest) = t ++ readBack rest

namespace Reads

theorem nil : Reads [] [] := ⟨.nil, fun _ => rfl⟩

theorem append {written' : Text} (hs : Reads written s) (ht : Reads written' t) :
    Reads (written ++ written') (s ++ t) := by
  refine ⟨hs.oneLine.append ht.oneLine, fun rest => ?_⟩
  rw [List.append_assoc, hs.readBack_append, ht.readBack_append, List.append_assoc]

/-- A spelling is read back, since no mark occurs in it. -/
theorem of_spells (hline : OneLine written) (h : Spells written t) : Reads written t := by
  refine ⟨hline, fun rest => ?_⟩
  rw [readBack, withoutMarks_append h.not_mem_angle.1]
  exact h.unescape_append (fun _ => isPunctuation_of_isBackslashed) _

theorem escape (h : OneLine t) : Reads (escape t) t :=
  of_spells (piped_escape h).oneLine (spells_escape t)

theorem blanks (hline : OneLine t) (h : ∀ c ∈ t, isBlank c = true) : Reads t t := by
  refine of_spells hline ?_
  clear hline
  induction t with
  | nil => exact .nil
  | cons c t ih =>
    obtain ⟨hc, ht⟩ := List.forall_mem_cons.mp h
    have hback : isBackslashed c = false := by
      have hvisible : ('\\' :: '-' :: markup).all (fun c => !isBlank c) = true := by
        decide
      rw [← Bool.not_eq_true]
      intro hback
      have hc' := of_isBackslashed hvisible hback
      rw [hc] at hc'
      cases hc'
    have hentity : isEntity c = false := by
      by_contra hentity
      rw [Bool.not_eq_false] at hentity
      rcases isEntity_iff.mp hentity with rfl | rfl | rfl <;> exact absurd hc (by decide)
    exact .plain (Bool.or_eq_false_iff.mp hback).1 hentity (ih ht)

theorem mark : Reads "<!-- -->" [] := ⟨⟨by decide, by decide⟩, fun _ => rfl⟩

end Reads

/-! ## Writing text -/

/-- What is written of a text was added, outside of any indent. -/
structure Shows (t : Text) (w w' : Writer) : Prop where
  indents : w'.indents = []
  remembers : w'.Remembers
  text_eq : ∃ written, w'.text = w.text ++ written ∧ Reads written t

namespace Shows

theorem refl (hw : w.indents = []) (h : w.Remembers) : Shows [] w w :=
  ⟨hw, h, [], (List.append_nil _).symm, .nil⟩

theorem trans (h : Shows s w w') (h' : Shows t w' w'') : Shows (s ++ t) w w'' := by
  obtain ⟨written, htext, hreads⟩ := h.text_eq
  obtain ⟨written', htext', hreads'⟩ := h'.text_eq
  refine ⟨h'.indents, h'.remembers, written ++ written', ?_, hreads.append hreads'⟩
  rw [htext', htext, List.append_assoc]

/-- What is read back as a text was written. -/
theorem andWrite (h : Shows s w w') (hreads : Reads written t) :
    Shows (s ++ t) w (w'.write written) := by
  refine h.trans ⟨?_, h.remembers.write written, written, ?_, hreads⟩
  · rw [Writer.indents_write, h.indents]
  · exact Writer.text_write_of_oneLine h.indents hreads.oneLine

end Shows

/-- A text is its visible part between the blanks around it. -/
theorem eq_append_trim_append (h : trim t ≠ []) :
    t = t.takeWhile isBlank ++ trim t ++ (t.reverse.takeWhile isBlank).reverse := by
  have hstart : t.takeWhile isBlank ++ trimStart t = t := List.takeWhile_append_dropWhile
  have hend : trimEnd t ++ (t.reverse.takeWhile isBlank).reverse = t := by
    rw [trimEnd, ← List.reverse_append, List.takeWhile_append_dropWhile, List.reverse_reverse]
  have htrim : t.takeWhile isBlank ++ trim t = trimEnd t := by
    rw [trim, ← trimEnd_append _ h, hstart]
  rw [htrim, hend]

theorem shows_plainText (hw : w.indents = []) (hr : w.Remembers) (ht : OneLine t) :
    Shows t w (Emission.plainText t w) := by
  have hnone := Shows.refl hw hr
  unfold Emission.plainText
  dsimp only
  split
  · rename_i hblank
    exact hnone.andWrite (.blanks ht (isBlank_of_trim_eq_nil (List.isEmpty_iff.mp hblank)))
  · rename_i hvisible
    have hlead : Reads (t.takeWhile isBlank) (t.takeWhile isBlank) :=
      .blanks (piped_takeWhile ht).oneLine fun c => isBlank_of_mem_takeWhile
    have htrail : Reads (t.reverse.takeWhile isBlank).reverse
        (t.reverse.takeWhile isBlank).reverse :=
      .blanks (piped_takeWhile_reverse ht).oneLine fun c hc =>
        isBlank_of_mem_takeWhile (List.mem_reverse.mp hc)
    have hstart := hnone.andWrite hlead
    have hne : trim t ≠ [] := fun hnil => hvisible (List.isEmpty_iff.mpr hnil)
    have hall : ∀ w', Shows (t.takeWhile isBlank) w w' →
        Shows t w ((w'.write (Markdown.escape (trim t))).write
          (t.reverse.takeWhile isBlank).reverse) := by
      intro w' hw'
      have hshows := (hw'.andWrite (.escape ht.trim)).andWrite htrail
      rwa [← eq_append_trim_append hne] at hshows
    split
    · exact hall _ hstart
    · refine hall _ ?_
      have hmark := hstart.andWrite .mark
      rwa [List.append_nil] at hmark

/-! ## Paragraphs of text -/

/-- A node of a paragraph that holds nothing but text. -/
inductive TextPiece where
  | text (t : Text)
  | softBreak
  /-- An escape for a character that can be seen. -/
  | escaped (encoded : Text) (c : Char) (visible : isBlank c = false)

namespace TextPiece

def node : TextPiece → Node
  | text t => .plainText t
  | softBreak => .softBreak
  | escaped encoded c _ => .escapedText encoded [c]

/-- The text that a node of text shows. A soft break is as good as a space. -/
def shown : TextPiece → Text
  | text t => t
  | softBreak => [' ']
  | escaped _ c _ => [c]

theorem inParagraph_node (p : TextPiece) : InParagraph p.node := by
  cases p with
  | text t => exact .plainText t
  | softBreak => exact .inLine .softBreak
  | escaped encoded c visible =>
    have hline : OneLine [c] := by
      constructor <;>
        · intro hmem
          obtain rfl := List.mem_singleton.mp hmem
          exact absurd visible (by decide)
    exact .inLine (.escapedText hline)

end TextPiece

/-- A node of text as trimming leaves it: a line. -/
inductive TextLine : Node → Prop
  | plainText {t : Text} : OneLine t → TextLine (.plainText t)
  | escapedText {encoded : Text} {c : Char} : OneLine [c] → TextLine (.escapedText encoded [c])

/-- The character that an item of a text shows. -/
def shownItem : Item → Char
  | .node (.escapedText _ (c :: _)) => c
  | .node _ => ' '
  | .char c => c

theorem map_shownItem_char (t : Text) : (t.map Item.char).map shownItem = t := by
  rw [List.map_map]
  exact List.map_id t

theorem map_shownItem_itemsOf (pieces : List TextPiece) :
    (itemsOf (pieces.map TextPiece.node)).map shownItem = pieces.flatMap TextPiece.shown := by
  induction pieces with
  | nil => rfl
  | cons p pieces ih =>
    rw [List.map_cons, itemsOf_cons, List.map_append, ih, List.flatMap_cons]
    cases p with
    | text t => exact congrArg (· ++ _) (map_shownItem_char t)
    | softBreak => rfl
    | escaped encoded c visible => rfl

/-- The text shown by the trimmed nodes is collapsed and trimmed. -/
theorem map_shownItem_trimNodes (pieces : List TextPiece) :
    (itemsOf (trimNodes (pieces.map TextPiece.node))).map shownItem =
      trim (collapse (pieces.flatMap TextPiece.shown)) := by
  have hblank : ∀ p : TextPiece, ∀ i ∈ p.node.items, isBlank (shownItem i) = i.isBlank := by
    intro p i hi
    cases p with
    | text t =>
      obtain ⟨c, -, rfl⟩ := List.mem_map.mp hi
      rfl
    | softBreak =>
      obtain rfl := List.mem_singleton.mp hi
      rfl
    | escaped encoded c visible =>
      obtain rfl := List.mem_singleton.mp hi
      exact visible
  have hitems : ∀ i ∈ itemsOf (pieces.map TextPiece.node), isBlank (shownItem i) = i.isBlank := by
    intro i hi
    obtain ⟨n, hn, hi⟩ := List.mem_flatMap.mp hi
    obtain ⟨p, -, rfl⟩ := List.mem_map.mp hn
    exact hblank p i hi
  rw [itemsOf_trimNodes, trim_collapse, ← map_shownItem_itemsOf]
  exact (squeezeFrom_map hitems false false).symm

theorem textLine_trimNodes (pieces : List TextPiece) :
    ∀ n ∈ trimNodes (pieces.map TextPiece.node), TextLine n := by
  have hinitial : CollectsLine .initial := List.forall_mem_nil _
  have hparagraph : ∀ n ∈ pieces.map TextPiece.node, InParagraph n :=
    List.forall_mem_map.mpr fun p _ => p.inParagraph_node
  intro n hn
  have hline := inLine_trimFrom hinitial hparagraph n hn
  obtain ⟨s, rfl⟩ | ⟨hn, hsoft⟩ := mem_of_mem_trimFrom hn
  · cases hline with
    | plainText hs => exact .plainText hs
  · obtain ⟨p, -, rfl⟩ := List.mem_map.mp hn
    cases p with
    | text t =>
      cases hline with
      | plainText ht => exact .plainText ht
    | softBreak => exact absurd rfl hsoft
    | escaped encoded c visible =>
      cases hline with
      | escapedText hc => exact .escapedText hc

theorem shows_write (hn : TextLine n) (hw : e.writer.indents = []) (hr : e.writer.Remembers)
    (followed : Bool) :
    Shows (n.items.map shownItem) e.writer (write followed n e).writer := by
  cases hn with
  | plainText ht =>
    rw [Node.items, map_shownItem_char]
    exact shows_plainText hw hr ht
  | escapedText hc => exact shows_plainText hw hr hc

theorem shows_writeAll (h : ∀ n ∈ ns, TextLine n) (hw : e.writer.indents = [])
    (hr : e.writer.Remembers) :
    Shows ((itemsOf ns).map shownItem) e.writer (writeAll ns e).writer := by
  induction ns generalizing e with
  | nil => exact .refl hw hr
  | cons n ns ih =>
    obtain ⟨hn, hns⟩ := List.forall_mem_cons.mp h
    have hfirst := shows_write hn hw hr (!ns.isEmpty)
    rw [itemsOf_cons, List.map_append, writeAll]
    exact hfirst.trans (ih hns hfirst.indents hfirst.remembers)

theorem insideTable_writeAll (h : ∀ n ∈ ns, TextLine n) (e : Emission) :
    (writeAll ns e).insideTable = e.insideTable := by
  induction ns generalizing e with
  | nil => rfl
  | cons n ns ih =>
    obtain ⟨hn, hns⟩ := List.forall_mem_cons.mp h
    rw [writeAll, ih hns]
    cases hn with
    | plainText _ => rfl
    | escapedText _ => rfl

/-- The nodes of a text have no references. -/
theorem linked_textParagraph (resolver? : Option Resolver) (pieces : List TextPiece) :
    linked resolver? (.paragraph (pieces.map TextPiece.node)) =
      pure (.paragraph (pieces.map TextPiece.node)) := by
  have hall : resolveAll resolver? (pieces.map TextPiece.node) =
      pure (pieces.map TextPiece.node) := by
    induction pieces with
    | nil => rfl
    | cons p pieces ih =>
      have hnode : resolveLinks resolver? p.node = pure p.node := by
        cases p <;> rfl
      rw [List.map_cons, resolveAll, hnode, pure_bind, ih, pure_bind]
  rw [linked, resolveLinks, hall, pure_bind]
  rfl

/-- Outside of tables a paragraph of one line ends with a blank line. -/
theorem text_endParagraph (houtside : e.insideTable = false) (hw : e.writer.indents = [])
    (hr : e.writer.Remembers) (hline : OneLine e.writer.text) (followed : Bool) :
    (endParagraph followed e).writer.ensureNewLine.text =
      if e.writer.text = [] then ['\n'] else e.writer.text ++ ['\n', '\n'] := by
  rw [endParagraph, houtside, if_neg Bool.false_ne_true]
  unfold Emission.lift
  rw [Writer.ensureNewLine_newline, Writer.text_ensureNewLine_newline hw hr hline]

/-- A paragraph of text is written as one line, if there is anything to see, and a blank one. The
line is read back as the text of the nodes with its blanks collapsed. -/
theorem emit_textParagraph (resolver? : Option Resolver) (pieces : List TextPiece) :
    ∃ line, emit resolver? (.paragraph (pieces.map TextPiece.node)) =
        pure (if line = [] then ['\n'] else line ++ ['\n', '\n']) ∧
      OneLine line ∧ readBack line = trim (collapse (pieces.flatMap TextPiece.shown)) := by
  have hlines := textLine_trimNodes pieces
  have hempty : Writer.empty.Remembers := rfl
  have hshows := shows_writeAll (e := .initial) hlines rfl hempty
  obtain ⟨line, htext, hreads⟩ := hshows.text_eq
  have hline : (writeAll (trimNodes (pieces.map TextPiece.node)) .initial).writer.text = line :=
    htext
  have hnodes : trimmedAll (pieces.map TextPiece.node) = pieces.map TextPiece.node := by
    rw [trimmedAll_eq_map, List.map_map]
    exact List.map_congr_left fun p _ => p.inParagraph_node.trimmed_eq
  refine ⟨line, ?_, hreads.oneLine, ?_⟩
  · have houtside := insideTable_writeAll hlines .initial
    have hend := text_endParagraph houtside hshows.indents hshows.remembers
      (hline.symm ▸ hreads.oneLine) false
    rw [emit, linked_textParagraph, pure_bind, render, Node.trimmed, hnodes, write, hend, hline]
  · have hback := hreads.readBack_append []
    rw [List.append_nil] at hback
    rw [hback, map_shownItem_trimNodes]
    exact List.append_nil _

end ApiReference.Markdown
