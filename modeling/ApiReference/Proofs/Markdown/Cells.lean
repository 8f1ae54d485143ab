import ApiReference.Proofs.Doc.Trim
import ApiReference.Proofs.Markdown.Pipes
import ApiReference.Proofs.Markdown.Writer

/-!
# What is written in a table cell

Text, code and links without references that stand in a table cell are written on one
line and without open pipes, whatever they say (`CellNode`).  Trimming first makes the
text of a paragraph a line; writing then adds to the line that is being written
(`Adds`), which the writing of one node after the other does as well.
-/

namespace ApiReference.Markdown

open Doc Text Emission

variable {n : Node} {ns : List Node} {e e' e'' : Emission} {w w' w'' : Writer} {t code : Text}
variable {k m : Nat}

/-! ## Nodes -/

/-- A link that has a destination, in which no line break and no pipe occurs, or that is a line of
text alone. -/
structure LinkFits (url? text? : Option Text) : Prop where
  url : ∀ url ∈ url?, OneLine url ∧ '|' ∉ url
  text : (url? = none ∨ url? = some []) → ∀ text ∈ text?, OneLine text

/-- Nodes within a line: text and code of one line each, and links without references. Code may have
several lines, and so may the text of a link with a destination. -/
inductive InLine : Node → Prop
  | plainText {text : Text} : OneLine text → InLine (.plainText text)
  | escapedText {encoded decoded : Text} : OneLine decoded → InLine (.escapedText encoded decoded)
  | codeSpan {code : Text} : ReturnsPaired code → InLine (.codeSpan code)
  | softBreak : InLine .softBreak
  | link {url? text? : Option Text} : LinkFits url? text? → InLine (.linkTag none url? text?)
  | emphasis {ns : List Node} {bold italic : Bool} : (∀ n ∈ ns, InLine n) →
      InLine (.emphasis ns bold italic)

/-- Nodes of a paragraph: any text, and what may stand within a line. -/
inductive InParagraph : Node → Prop
  | plainText (text : Text) : InParagraph (.plainText text)
  | inLine {n : Node} : InLine n → InParagraph n

/-- Nodes of a table cell: paragraphs, and fenced code whose language has no line break and no
pipe. -/
inductive CellNode : Node → Prop
  | paragraph {ns : List Node} : (∀ n ∈ ns, InParagraph n) → CellNode (.paragraph ns)
  | fencedCode {code : Text} {language : Json} : ReturnsPaired code → OneLine language.display →
      '|' ∉ language.display → CellNode (.fencedCode code language)

/-! ## Trimming -/

theorem trimmedAll_eq_map (ns : List Node) : trimmedAll ns = ns.map Node.trimmed := by
  induction ns with
  | nil => rfl
  | cons n ns ih => rw [trimmedAll, ih, List.map_cons]

/-- Nodes within a line are not trimmed. -/
theorem InLine.trimmed_eq (h : InLine n) : n.trimmed = n := by
  induction h with
  | @emphasis ns bold italic _ ih =>
    rw [Node.trimmed, trimmedAll_eq_map, List.map_congr_left ih, List.map_id']
  | plainText _ | escapedText _ | codeSpan _ | softBreak | link _ => rfl

theorem InParagraph.trimmed_eq (h : InParagraph n) : n.trimmed = n := by
  cases h with
  | plainText text => rfl
  | inLine h => exact h.trimmed_eq

/-- The text collected by trimming is a line. -/
def CollectsLine (t : Trim) : Prop := ∀ chunk ∈ t.chunks, OneLine chunk

namespace CollectsLine

variable {t : Trim}

theorem settle (h : CollectsLine t) : CollectsLine t.settle := by
  unfold Trim.settle
  split
  · exact List.forall_mem_cons.mpr ⟨⟨by decide, by decide⟩, h⟩
  · exact h

theorem blank (h : CollectsLine t) (found : Bool) : CollectsLine (t.blank found) := by
  unfold Trim.blank
  split
  · exact h
  · exact h

theorem visible (h : CollectsLine t) {piece : Text} (hp : OneLine piece) :
    CollectsLine (t.visible piece) := by
  unfold Trim.visible
  split
  · exact h
  · exact List.forall_mem_cons.mpr ⟨hp, h.settle⟩

theorem add (h : CollectsLine t) (s : Text) : CollectsLine (t.add s) :=
  ((h.blank _).visible (oneLine_collapse s).trim).blank _

theorem flush (h : CollectsLine t) : ∀ n ∈ t.flush, InLine n := by
  unfold Trim.flush
  split
  · exact List.forall_mem_nil _
  · refine List.forall_mem_singleton.mpr (.plainText ?_)
    constructor
    · intro hmem
      obtain ⟨chunk, hchunk, hc⟩ := List.mem_flatten.mp hmem
      exact (h chunk (List.mem_reverse.mp hchunk)).1 hc
    · intro hmem
      obtain ⟨chunk, hchunk, hc⟩ := List.mem_flatten.mp hmem
      exact (h chunk (List.mem_reverse.mp hchunk)).2 hc

end CollectsLine

/-- Whatever the texts of a paragraph are, its trimmed nodes may stand within a line. -/
theorem inLine_trimFrom {t : Trim} (ht : CollectsLine t) (h : ∀ n ∈ ns, InParagraph n) :
    ∀ n ∈ trimFrom t ns, InLine n := by
  have hfresh : CollectsLine ⟨[], false, true⟩ := List.forall_mem_nil _
  fun_induction trimFrom t ns with
  | case1 t => exact ht.flush
  | case2 t s nodes ih => exact ih (ht.add s) (List.forall_mem_cons.mp h).2
  | case3 t nodes ih => exact ih (ht.blank true) (List.forall_mem_cons.mp h).2
  | case4 t node nodes hplain hsoft ih =>
    obtain ⟨hnode, hnodes⟩ := List.forall_mem_cons.mp h
    have hline : InLine node := by
      cases hnode with
      | plainText text => exact absurd rfl (hplain text)
      | inLine hline => exact hline
    exact List.forall_mem_append.mpr ⟨ht.settle.flush,
      List.forall_mem_cons.mpr ⟨hline, ih hfresh hnodes⟩⟩

/-! ## Writing on a line -/

/-- A piece of a line with a number of open pipes was written, and no indent is in force. -/
def Writes (k : Nat) (w w' : Writer) : Prop :=
  w'.indents = [] ∧ ∃ t, w'.text = w.text ++ t ∧ Piped k t

namespace Writes

theorem refl (hw : w.indents = []) : Writes 0 w w := ⟨hw, [], (List.append_nil _).symm, .nil⟩

theorem trans (h : Writes k w w') (h' : Writes m w' w'') : Writes (k + m) w w'' := by
  obtain ⟨_, s, hs, hps⟩ := h
  obtain ⟨hw, t, ht, hpt⟩ := h'
  exact ⟨hw, s ++ t, by rw [ht, hs, List.append_assoc], hps.append hpt⟩

/-- Pieces without open pipes are one such piece. -/
theorem trans_closed (h : Writes 0 w w') (h' : Writes 0 w' w'') : Writes 0 w w'' := h.trans h'

theorem write (hw : w.indents = []) (ht : Piped k t) : Writes k w (w.write t) :=
  ⟨by rw [Writer.indents_write, hw], t, Writer.text_write_of_oneLine hw ht.oneLine, ht⟩

/-- One more piece without open pipes. -/
theorem andWrite (h : Writes k w w') (ht : Piped 0 t) : Writes k w (w'.write t) :=
  h.trans (write h.1 ht)

end Writes

/-- Blanks at the start of a line have no pipes. -/
theorem piped_takeWhile (ht : OneLine t) : Piped 0 (t.takeWhile isBlank) := by
  refine .of_not_mem (ht.of_subset fun _ h => (List.takeWhile_sublist isBlank).subset h) fun h => ?_
  have hblank := isBlank_of_mem_takeWhile h
  exact absurd hblank (by decide)

theorem piped_takeWhile_reverse (ht : OneLine t) :
    Piped 0 (t.reverse.takeWhile isBlank).reverse := by
  have hpiped := piped_takeWhile (ht.of_subset (s := t.reverse) fun _ => List.mem_reverse.mp)
  refine .of_not_mem (hpiped.oneLine.of_subset fun _ => List.mem_reverse.mp) fun h => ?_
  have hblank := isBlank_of_mem_takeWhile (List.mem_reverse.mp h)
  exact absurd hblank (by decide)

theorem writes_plainText (hw : w.indents = []) (ht : OneLine t) :
    Writes 0 w (Emission.plainText t w) := by
  have hstart := Writes.write hw (piped_takeWhile ht)
  have hend := piped_takeWhile_reverse ht
  have hescape := piped_escape ht.trim
  unfold Emission.plainText
  dsimp only
  split
  · rename_i hblank
    refine .write hw (.of_not_mem ht fun hpipe => ?_)
    exact absurd (isBlank_of_trim_eq_nil (List.isEmpty_iff.mp hblank) _ hpipe) (by decide)
  · split
    · exact (hstart.andWrite hescape).andWrite hend
    · have hmark : Piped 0 "<!-- -->" := .mark rfl
      exact ((hstart.andWrite hmark).andWrite hescape).andWrite hend

theorem piped_codeSpan (h : ReturnsPaired code) : Piped 0 (Emission.codeSpan code true) := by
  have hlines := piped_of_mem_splitLineFeeds h
  have hquote : Piped 0 ['\x60'] := .mark rfl
  unfold Emission.codeSpan
  rw [Bool.not_true, if_neg Bool.false_ne_true]
  split
  · rename_i line hline
    rw [hline] at hlines
    have hpiped := hlines line (List.mem_singleton.mpr rfl)
    exact (hquote.append_closed hpiped).append_closed hquote
  · have hopen : Piped 0 "<pre>" := .mark rfl
    have hclose : Piped 0 "</pre>" := .mark rfl
    have hbreak : Piped 0 "&#010;" := .mark rfl
    exact (hopen.append_closed (hbreak.join hlines)).append_closed hclose

theorem writes_link (hw : w.indents = []) (text : Text) (ht : OneLine t) (hpipe : '|' ∉ t) :
    Writes 0 w (Emission.link text t w) := by
  have hopen : Piped 0 "[" := .mark rfl
  have hturn : Piped 0 "](" := .mark rfl
  have hclose : Piped 0 ")" := .mark rfl
  have htext := piped_escape (oneLine_collapse text)
  have htarget := (hturn.append_closed (.of_not_mem ht hpipe)).append_closed hclose
  exact ((Writes.write hw hopen).andWrite htext).andWrite htarget

theorem writes_linkTag {url? text? : Option Text} (hw : w.indents = []) (h : LinkFits url? text?) :
    Writes 0 w (Emission.linkTag none url? text? w) := by
  match url?, text?, h with
  | some (c :: url), some text, h =>
    obtain ⟨hline, hpipe⟩ := h.url (c :: url) rfl
    exact writes_link hw text hline hpipe
  | some (c :: url), none, h =>
    obtain ⟨hline, hpipe⟩ := h.url (c :: url) rfl
    exact writes_link hw (c :: url) hline hpipe
  | none, some (c :: text), h => exact writes_plainText hw (h.text (.inl rfl) (c :: text) rfl)
  | some [], some (c :: text), h => exact writes_plainText hw (h.text (.inr rfl) (c :: text) rfl)
  | none, some [], _ | some [], some [], _ | none, none, _ | some [], none, _ => exact .refl hw

theorem writes_softBreak (hw : w.indents = []) : Writes 0 w (Emission.softBreak w) := by
  have hspace : Piped 0 " " := .mark rfl
  unfold Emission.softBreak
  split
  · exact .refl hw
  · split
    · exact .refl hw
    · exact .write hw hspace

/-! ## Writing nodes of a cell -/

/-- Inside a table, where no indent is in force. -/
structure InTable (e : Emission) : Prop where
  insideTable : e.insideTable = true
  indents : e.writer.indents = []

/-- A piece of a line was written inside a table. -/
def Adds (k : Nat) (e e' : Emission) : Prop :=
  e'.insideTable = true ∧ Writes k e.writer e'.writer

namespace Adds

theorem inTable (h : Adds k e e') : InTable e' := ⟨h.1, h.2.1⟩

theorem refl (he : InTable e) : Adds 0 e e := ⟨he.insideTable, .refl he.indents⟩

theorem trans (h : Adds k e e') (h' : Adds m e' e'') : Adds (k + m) e e'' :=
  ⟨h'.1, h.2.trans h'.2⟩

theorem trans_closed (h : Adds 0 e e') (h' : Adds 0 e' e'') : Adds 0 e e'' := h.trans h'

theorem lift {f : Writer → Writer} (he : InTable e) (h : Writes k e.writer (f e.writer)) :
    Adds k e (e.lift f) :=
  ⟨he.insideTable, h⟩

theorem put (he : InTable e) (ht : Piped k t) : Adds k e (e.put t) :=
  lift he (.write he.indents ht)

/-- One more piece without open pipes. -/
theorem andPut (h : Adds k e e') (ht : Piped 0 t) : Adds k e (e'.put t) :=
  h.trans (put h.inTable ht)

end Adds

/-- A mark that is written if it is called for. -/
theorem adds_mark (he : InTable e) (ht : Piped 0 t) (called : Bool) :
    Adds 0 e (if called then e.put t else e) := by
  cases called with
  | true => exact .put he ht
  | false => exact .refl he

theorem adds_writeAll
    (h : ∀ n ∈ ns, ∀ followed e, InTable e → Adds 0 e (write followed n e)) (he : InTable e) :
    Adds 0 e (writeAll ns e) := by
  induction ns generalizing e with
  | nil => exact .refl he
  | cons n ns ih =>
    obtain ⟨hn, hns⟩ := List.forall_mem_cons.mp h
    have hfirst := hn (!ns.isEmpty) e he
    rw [writeAll]
    exact hfirst.trans_closed (ih hns hfirst.inTable)

/-- A node within a line is written on that line. -/
theorem adds_write_inLine (h : InLine n) :
    ∀ followed e, InTable e → Adds 0 e (write followed n e) := by
  induction h with
  | plainText ht => exact fun _ e he => .lift he (writes_plainText he.indents ht)
  | escapedText ht => exact fun _ e he => .lift he (writes_plainText he.indents ht)
  | codeSpan hcode =>
    intro followed e he
    rw [write, he.insideTable]
    exact .put he (piped_codeSpan hcode)
  | softBreak => exact fun _ e he => .lift he (writes_softBreak he.indents)
  | link hlink => exact fun _ e he => .lift he (writes_linkTag he.indents hlink)
  | @emphasis ns bold italic _ ih =>
    intro followed e he
    have hmark : ∀ mark ∈ (["<b>", "<i>", "</i>", "</b>"] : List Text), Piped 0 mark := by
      intro mark hmem
      simp only [List.mem_cons, List.not_mem_nil, or_false] at hmem
      rcases hmem with rfl | rfl | rfl | rfl <;>
        exact .mark rfl
    rw [write]
    have hbold := adds_mark he (hmark "<b>" (by simp)) bold
    have hitalic := hbold.trans_closed
      (adds_mark hbold.inTable (hmark "<i>" (by simp)) italic)
    have hinner := hitalic.trans_closed (adds_writeAll ih hitalic.inTable)
    have hroman := hinner.trans_closed
      (adds_mark hinner.inTable (hmark "</i>" (by simp)) italic)
    exact hroman.trans_closed (adds_mark hroman.inTable (hmark "</b>" (by simp)) bold)

theorem adds_fencedCode (he : InTable e) {language : Json} (hcode : ReturnsPaired code)
    (hline : OneLine language.display) (hpipe : '|' ∉ language.display) :
    Adds 0 e (Emission.fencedCode code language e) := by
  have hopen : Piped 0 "<pre lang=\"" := .mark rfl
  have hturn : Piped 0 "\">" := .mark rfl
  have hclose : Piped 0 "</pre>" := .mark rfl
  have hbreak : Piped 0 "&#010;" := .mark rfl
  have hlanguage : Piped 0 language.display := .of_not_mem hline hpipe
  have hlines := piped_of_mem_splitLineFeeds (returnsPaired_trimNewlines hcode)
  unfold Emission.fencedCode
  dsimp only
  rw [if_pos he.insideTable]
  exact .put he ((((hopen.append_closed hlanguage).append_closed hturn).append_closed
    (hbreak.join hlines)).append_closed hclose)

/-- A node of a cell, once it is trimmed, is written on the line of its row. -/
theorem adds_write_cellNode (h : CellNode n) (followed : Bool) (he : InTable e) :
    Adds 0 e (write followed n.trimmed e) := by
  cases h with
  | @paragraph ns hns =>
    have hbreak : Piped 0 "<br><br>" := .mark rfl
    have htrimmed : trimmedAll ns = ns := by
      rw [trimmedAll_eq_map, List.map_congr_left fun n hn => (hns n hn).trimmed_eq, List.map_id']
    have hinitial : CollectsLine .initial := List.forall_mem_nil _
    have hline : ∀ n ∈ trimNodes ns, InLine n := inLine_trimFrom hinitial hns
    have hinner := adds_writeAll (fun n hn => adds_write_inLine (hline n hn)) he
    rw [Node.trimmed, htrimmed, write, endParagraph, if_pos hinner.inTable.insideTable]
    split
    · exact hinner.andPut hbreak
    · exact hinner
  | fencedCode hcode hline hpipe => exact adds_fencedCode he hcode hline hpipe

/-- All nodes of a cell are written on the line of its row. -/
theorem adds_writeAll_cell (h : ∀ n ∈ ns, CellNode n) (he : InTable e) :
    Adds 0 e (writeAll (trimmedAll ns) e) := by
  refine adds_writeAll (fun m hm followed e he => ?_) he
  rw [trimmedAll_eq_map] at hm
  obtain ⟨n, hn, rfl⟩ := List.mem_map.mp hm
  exact adds_write_cellNode (h n hn) followed he

end ApiReference.Markdown
