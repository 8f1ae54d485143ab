import ApiReference.Markdown.Emit
import ApiReference.Proofs.Diagnostics.Outcome
import ApiReference.Proofs.Markdown.Operations

/-!
# What writing a node touches

Whatever is written of a node is added to the text, and what is added depends on nothing
but the end of the text so far: chunks that lie further back may be exchanged
(`Step.under`).  Indents and the depth of lists are left as they were found, and the one
thing that is not is that a node with a table in it leaves all tables around it
(`Frames`).  Steps that are put together keep this, and so it holds of every node
(`frames_write`).
-/

namespace ApiReference.Doc

mutual

/-- Whether a table is written with a node: the node is one, or one of those in it holds one. -/
def Node.holdsTable : Node → Bool
  | .table _ _ => true
  | .paragraph ns | .body ns | .list ns | .emphasis ns _ _ | .noteBox ns => holdsTableIn ns
  | _ => false

def holdsTableIn : List Node → Bool
  | [] => false
  | n :: ns => n.holdsTable || holdsTableIn ns

end

end ApiReference.Doc

namespace ApiReference.Markdown

open Doc Text Emission

/-! ## Steps of a writer -/

namespace Writer

variable {f g : Writer → Writer} {t p : Text}

/-- The writer with more chunks behind all that it has. -/
def under (older : List Text) (w : Writer) : Writer := { w with chunks := w.chunks ++ older }

theorem text_under (older : List Text) (w : Writer) :
    (w.under older).text = older.reverse.flatten ++ w.text := by
  simp [text, under]

/-- A step adds to the text, and does the same over any older chunks. -/
structure Step (f : Writer → Writer) : Prop where
  grows (w : Writer) : Grows w (f w)
  under (older : List Text) (w : Writer) : f (w.under older) = (f w).under older

theorem putIndent_under (older : List Text) (w : Writer) :
    (w.under older).putIndent = w.putIndent.under older := by
  have hcondition : ((w.under older).atLineStart && !(w.under older).indent.isEmpty) =
      (w.atLineStart && !w.indent.isEmpty) := rfl
  unfold putIndent
  rw [hcondition]
  split <;> rfl

namespace Step

theorem id : Step fun w => w := ⟨.refl, fun _ _ => rfl⟩

theorem comp (hf : Step f) (hg : Step g) : Step fun w => g (f w) where
  grows w := (hf.grows w).trans (hg.grows (f w))
  under older w := by rw [hf.under, hg.under]

theorem newline : Step Writer.newline where
  grows w := .newline w
  under older w := by
    rw [Writer.newline, putIndent_under]
    rfl

theorem part (ht : OneLine t) : Step (Writer.part t) where
  grows w := .part w ht
  under older w := by
    unfold Writer.part
    rw [putIndent_under]
    split <;> rfl

theorem parts {ts : List Text} (h : ∀ t ∈ ts, OneLine t) : Step (Writer.parts ts) := by
  induction ts with
  | nil => exact id
  | cons t ts ih =>
    obtain ⟨ht, hts⟩ := List.forall_mem_cons.mp h
    cases ts with
    | nil => exact part ht
    | cons t' ts => exact ((part ht).comp newline).comp (ih hts)

theorem write (t : Text) : Step (Writer.write t) := parts fun _ => oneLine_of_mem_splitAt

theorem writeLine (t : Text) : Step (Writer.writeLine t) := (write t).comp newline

/-- A step may depend on the last character. -/
theorem onLast {f : Option Char → Writer → Writer} (h : ∀ last?, Step (f last?)) :
    Step fun w => f w.last? w where
  grows w := (h w.last?).grows w
  under older w := (h w.last?).under older w

theorem ensureNewLine : Step Writer.ensureNewLine where
  grows := .ensureNewLine
  under older w := by
    have hlast : (w.under older).last? = w.last? := rfl
    unfold Writer.ensureNewLine
    rw [hlast]
    split
    · rfl
    · rfl
    · exact newline.under older w

theorem ensureSkippedLine : Step Writer.ensureSkippedLine where
  grows := .ensureSkippedLine
  under older w := by
    have htail : (w.under older).tail = w.tail := rfl
    have hsecond : (w.ensureNewLine.under older).secondLast? = w.ensureNewLine.secondLast? := rfl
    unfold Writer.ensureSkippedLine
    dsimp only
    rw [ensureNewLine.under, htail, hsecond, newline.under]
    split
    · rfl
    · split <;> rfl

theorem indented (hp : OneLine p) (hf : Step f) :
    Step fun w => (f (w.increaseIndent p)).dropIndent where
  grows w := .indented hp (hf.grows _)
  under older w := by
    have h := hf.under older (w.increaseIndent p)
    exact congrArg dropIndent h

end Step

end Writer

open Writer (Step)

variable {f g : Emission → Emission} {closes closes' : Bool}

/-! ## Steps of an emission -/

namespace Emission

def under (older : List Text) (e : Emission) : Emission := e.lift (.under older)

/-- What writing does besides adding to the text: nothing, but that it may leave all tables. -/
structure Frames (closes : Bool) (f : Emission → Emission) : Prop where
  grows (e : Emission) : Writer.Grows e.writer (f e).writer
  under (older : List Text) (e : Emission) : f (e.under older) = (f e).under older
  listLevel_eq (e : Emission) : (f e).listLevel = e.listLevel
  insideTable_eq (e : Emission) : (f e).insideTable = (e.insideTable && !closes)

namespace Frames

theorem id : Frames false fun e => e where
  grows e := .refl e.writer
  under _ _ := rfl
  listLevel_eq _ := rfl
  insideTable_eq e := (Bool.and_true e.insideTable).symm

theorem comp (hf : Frames closes f) (hg : Frames closes' g) :
    Frames (closes || closes') fun e => g (f e) where
  grows e := (hf.grows e).trans (hg.grows (f e))
  under older e := by rw [hf.under, hg.under]
  listLevel_eq e := (hg.listLevel_eq (f e)).trans (hf.listLevel_eq e)
  insideTable_eq e := by
    rw [hg.insideTable_eq, hf.insideTable_eq, Bool.not_or, Bool.and_assoc]

theorem lift {f : Writer → Writer} (hf : Step f) : Frames false (Emission.lift f) where
  grows e := hf.grows e.writer
  under older e := congrArg (fun w => { e with writer := w }) (hf.under older e.writer)
  listLevel_eq _ := rfl
  insideTable_eq e := (Bool.and_true e.insideTable).symm

theorem put (t : Text) : Frames false (Emission.put t) := lift (.write t)

/-- What is written may depend on where it stands. -/
theorem onPlace {f : Bool → Nat → Emission → Emission}
    (h : ∀ insideTable listLevel, Frames closes (f insideTable listLevel)) :
    Frames closes fun e => f e.insideTable e.listLevel e where
  grows e := (h _ _).grows e
  under older e := (h _ _).under older e
  listLevel_eq e := (h _ _).listLevel_eq e
  insideTable_eq e := (h _ _).insideTable_eq e

theorem before (hf : Frames closes f) (hg : Frames false g) : Frames closes fun e => g (f e) :=
  Bool.or_false closes ▸ hf.comp hg

theorem behind (hf : Frames false f) (hg : Frames closes g) : Frames closes fun e => g (f e) :=
  hf.comp hg

end Frames

/-! ## Leaves -/

theorem step_plainText (t : Text) : Step (plainText t) := by
  unfold plainText
  dsimp only
  split
  · exact .write t
  · have hmark : Step fun w => if isSafeBefore w.last? then w else w.write "<!-- -->" := by
      refine Step.onLast (f := fun last? w => if isSafeBefore last? then w else w.write "<!-- -->")
        fun last? => ?_
      split
      · exact .id
      · exact .write _
    exact (((Step.write _).comp hmark).comp (.write _)).comp (.write _)

theorem step_link (text destination : Text) : Step (link text destination) :=
  ((Step.write _).comp (.write _)).comp (.write _)

theorem step_linkTag (reference? url? text? : Option Text) :
    Step (linkTag reference? url? text?) := by
  unfold linkTag
  split
  · exact .id
  · exact step_link _ _
  · exact step_link _ _
  · exact step_plainText _
  · exact .id

theorem step_softBreak : Step softBreak where
  grows w := by
    unfold softBreak
    split
    · exact .refl w
    · split
      · exact .refl w
      · exact .write w _
  under older w := by
    have hlast : (w.under older).last? = w.last? := rfl
    unfold softBreak
    rw [hlast]
    split
    · rfl
    · split
      · rfl
      · exact (Step.write _).under older w

theorem step_anchor (id : Text) : Step (anchor id) :=
  (Step.ensureSkippedLine.comp (.writeLine _)).comp .newline

theorem step_heading (title : Text) (level : HeadingLevel) : Step (heading title level) :=
  (Step.ensureSkippedLine.comp (.writeLine _)).comp .newline

theorem step_padCells (n : Nat) : Step (padCells n) := by
  induction n with
  | zero => exact .id
  | succ n ih => exact ((Step.write _).comp (.write _)).comp ih

theorem step_ruleCells (n : Nat) : Step (ruleCells n) := by
  induction n with
  | zero => exact .id
  | succ n ih => exact (Step.write _).comp ih

theorem frames_fencedCode (code : Text) (language : Json) :
    Frames false (fencedCode code language) := by
  refine Frames.onPlace (f := fun insideTable _ e =>
    if insideTable then
      e.put ("<pre lang=\"" ++ language.display ++ "\">" ++
        Text.join "&#010;" (Text.splitLineFeeds ((trimNewlines code).flatMap escapePipe)) ++
        "</pre>")
    else e.lift fun w =>
      ((((w.ensureNewLine.write fence).write (fenceMark language)).newline.write
        (trimNewlines code)).newline).writeLine fence) fun insideTable _ => ?_
  split
  · exact .put _
  · exact .lift ((((((Step.ensureNewLine.comp (.write _)).comp (.write _)).comp .newline).comp
      (.write _)).comp .newline).comp (.writeLine _))

theorem frames_endParagraph (followed : Bool) : Frames false (endParagraph followed) := by
  refine Frames.onPlace (f := fun insideTable _ e =>
    if insideTable then if followed then e.put "<br><br>" else e
    else e.lift fun w => w.ensureNewLine.newline) fun insideTable _ => ?_
  split
  · split
    · exact .put _
    · exact .id
  · exact .lift (Step.ensureNewLine.comp .newline)

theorem frames_bullet : Frames false bullet :=
  Frames.onPlace (f := fun _ listLevel e => e.lift fun w => w.ensureNewLine.write
    (List.replicate (4 * (listLevel - 1)) ' ' ++ ['-', ' ']))
    fun _ _ => .lift (Step.ensureNewLine.comp (.write _))

theorem frames_openRow : Frames false openRow := .put _

theorem frames_closeRow (missing : Nat) : Frames false (closeRow missing) :=
  .lift ((step_padCells missing).comp .newline)

/-- A mark is written or not. -/
theorem frames_mark (shown : Bool) (t : Text) :
    Frames false fun e => if shown then e.put t else e := by
  cases shown with
  | true => exact .put t
  | false => exact .id

/-! ## Containers -/

/-- What is indented further is written with the indents as they were around it. -/
theorem Frames.indented {p : Text} (hp : OneLine p) (hf : Frames closes f) :
    Frames closes fun e => (f (e.lift (.increaseIndent p))).lift .dropIndent where
  grows e := .indented hp (hf.grows (e.lift (.increaseIndent p)))
  under older e :=
    congrArg (Emission.lift .dropIndent) (hf.under older (e.lift (.increaseIndent p)))
  listLevel_eq e := hf.listLevel_eq (e.lift (.increaseIndent p))
  insideTable_eq e := hf.insideTable_eq (e.lift (.increaseIndent p))

/-- One level deeper, and back. -/
theorem Frames.deeper (hf : Frames closes f) : Frames closes fun e =>
    let e := f { e with listLevel := e.listLevel + 1 }
    { e with listLevel := e.listLevel - 1 } where
  grows e := hf.grows { e with listLevel := e.listLevel + 1 }
  under older e := congrArg (fun e : Emission => { e with listLevel := e.listLevel - 1 })
    (hf.under older { e with listLevel := e.listLevel + 1 })
  listLevel_eq e := by
    dsimp only
    rw [hf.listLevel_eq]
    exact Nat.add_sub_cancel ..
  insideTable_eq e := hf.insideTable_eq { e with listLevel := e.listLevel + 1 }

/-- A table is left at its end, whatever is around it. -/
theorem Frames.inTable (hf : Frames closes f) :
    Frames true fun e => { f { e with insideTable := true } with insideTable := false } where
  grows e := hf.grows { e with insideTable := true }
  under older e := congrArg (fun e : Emission => { e with insideTable := false })
    (hf.under older { e with insideTable := true })
  listLevel_eq e := hf.listLevel_eq { e with insideTable := true }
  insideTable_eq e := (Bool.and_false e.insideTable).symm

theorem frames_list (hf : Frames closes f) : Frames closes fun e => closeList (f (openList e)) := by
  have hskip : ∀ k, Frames false fun e =>
      if e.listLevel = k then e.lift .ensureSkippedLine else e := by
    refine fun k => Frames.onPlace (f := fun _ listLevel e =>
      if listLevel = k then e.lift .ensureSkippedLine else e) fun _ listLevel => ?_
    split
    · exact .lift .ensureSkippedLine
    · exact .id
  exact ((hskip 1).behind hf).deeper.before (hskip 0)

theorem frames_noteBox (hf : Frames closes f) :
    Frames closes fun e => (f (e.lift openNote)).lift closeNote := by
  have hmark : OneLine "> " := ⟨by decide, by decide⟩
  have hinner : Frames closes fun e => (f e).lift .ensureNewLine := hf.before (.lift .ensureNewLine)
  exact ((Frames.lift .ensureNewLine).behind (hinner.indented hmark)).before (.lift .newline)

theorem frames_table (hf : Frames closes f) : Frames true fun e => closeTable (f (openTable e)) :=
  ((Frames.lift .ensureSkippedLine).behind hf.inTable).before (.lift .newline)

theorem frames_emphasis (bold italic : Bool) (hf : Frames closes f) : Frames closes fun e =>
    let e := if bold then e.put "<b>" else e
    let e := if italic then e.put "<i>" else e
    let e := f e
    let e := if italic then e.put "</i>" else e
    if bold then e.put "</b>" else e :=
  ((((frames_mark bold _).behind ((frames_mark italic _).behind hf)).before
    (frames_mark italic _)).before (frames_mark bold _))

/-! ## Nodes -/

mutual

/-- Writing a node adds to the text and leaves its surroundings as they are, but that it leaves all
tables if it holds one. -/
theorem frames_write : (n : Node) → (followed : Bool) → Frames n.holdsTable (write followed n)
  | .plainText t, _ => .lift (step_plainText t)
  | .escapedText _ decoded, _ => .lift (step_plainText decoded)
  | .codeSpan code, _ => .onPlace (f := fun insideTable _ e => e.put (codeSpan code insideTable))
      fun _ _ => .put _
  | .fencedCode code language, _ => frames_fencedCode code language
  | .linkTag reference? url? text?, _ => .lift (step_linkTag reference? url? text?)
  | .softBreak, _ => .lift step_softBreak
  | .paragraph ns, followed => (frames_writeAll ns).before (frames_endParagraph followed)
  | .body ns, _ => frames_writeAll ns
  | .anchor id, _ => .lift (step_anchor id)
  | .heading title level, _ => .lift (step_heading title level)
  | .list ns, _ => frames_list (frames_writeItems ns)
  | .noteBox ns, _ => frames_noteBox (frames_writeAll ns)
  | .table header rows, _ => by
    let columns := columnCount header rows
    obtain ⟨_, hheader⟩ := frames_writeCells header
    obtain ⟨_, hrows⟩ := frames_writeRows columns rows
    have hrule : Frames false (Emission.lift fun w => (ruleCells columns w).newline) :=
      .lift ((step_ruleCells columns).comp .newline)
    have hfirst := (frames_openRow.comp hheader).comp
      (frames_closeRow (columns - header.length))
    exact frames_table (((hfirst.comp frames_openRow).comp hrule).comp hrows)
  | .emphasis ns bold italic, _ => frames_emphasis bold italic (frames_writeAll ns)
  | .tableRow _, _ => .id
  | .tableCell _, _ => .id

theorem frames_writeAll : (ns : List Node) → Frames (holdsTableIn ns) (writeAll ns)
  | [] => .id
  | n :: ns => (frames_write n (!ns.isEmpty)).comp (frames_writeAll ns)

theorem frames_writeItems : (ns : List Node) → Frames (holdsTableIn ns) (writeItems ns)
  | [] => .id
  | n :: ns => by
    have hbullet : Frames false fun e => if n.kind = .list then e else bullet e := by
      split
      · exact .id
      · exact frames_bullet
    exact (hbullet.behind (frames_write n false)).comp (frames_writeItems ns)

theorem frames_writeCells : (cells : List (List Node)) → ∃ closes, Frames closes (writeCells cells)
  | [] => ⟨_, .id⟩
  | c :: cs => by
    obtain ⟨_, hcs⟩ := frames_writeCells cs
    exact ⟨_, (((Frames.put " ").comp (frames_writeAll c)).comp (.put " |")).comp hcs⟩

theorem frames_writeRows (columns : Nat) :
    (rows : List (List (List Node))) → ∃ closes, Frames closes (writeRows columns rows)
  | [] => ⟨_, .id⟩
  | r :: rs => by
    obtain ⟨_, hr⟩ := frames_writeCells r
    obtain ⟨_, hrs⟩ := frames_writeRows columns rs
    exact ⟨_, ((frames_openRow.comp hr).comp (frames_closeRow (columns - r.length))).comp hrs⟩

end

end Emission

/-! ## Nodes with references -/

/-- What a node is written as where its references are resolved. -/
def written (resolver? : Option Resolver) (followed : Bool) (n : Node) (e : Emission) :
    Traced Emission := do
  let found ← (resolveLinks resolver? n).run e.insideTable
  return write followed found.1.trimmed e

theorem written_eq_ok {resolver? : Option Resolver} {followed : Bool} {n : Node}
    {e e' : Emission} : (written resolver? followed n e).outcome = .ok e' ↔
    ∃ found, ((resolveLinks resolver? n).run e.insideTable).outcome = .ok found ∧
      e' = write followed found.1.trimmed e := by
  rw [written, Traced.outcome_bind, bind_eq_ok]
  simp only [Traced.outcome_pure, Except.ok.injEq, eq_comm]

end ApiReference.Markdown
