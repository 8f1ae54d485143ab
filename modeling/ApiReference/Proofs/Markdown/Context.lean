import ApiReference.Proofs.Doc.Trim
import ApiReference.Proofs.Markdown.Frame
import ApiReference.Proofs.Markdown.Resolve

/-!
# What a node leaves to its siblings

Links in the place of references make no tables and remove none, nor does trimming, so
that what a node touches can be told before its references are resolved
(`frames_written`).  Emissions that differ in nothing but how the text so far is
cut into chunks stay so, whatever is written (`Frames.alike`).  Siblings are written one
after the other (`written_body`), and so all that one of them can depend on is the text
before it, and whether a table was left.
-/

namespace ApiReference.Doc

/-! ## Trimming -/

theorem holdsTableIn_eq_any (ns : List Node) : holdsTableIn ns = ns.any Node.holdsTable := by
  induction ns with
  | nil => rfl
  | cons n ns ih => rw [holdsTableIn, ih, List.any_cons]

theorem holdsTableIn_append (ns ns' : List Node) :
    holdsTableIn (ns ++ ns') = (holdsTableIn ns || holdsTableIn ns') := by
  simp only [holdsTableIn_eq_any, List.any_append]

theorem holdsTableIn_flush (t : Trim) : holdsTableIn t.flush = false := by
  unfold Trim.flush
  split <;> rfl

theorem holdsTableIn_trimFrom (t : Trim) (ns : List Node) :
    holdsTableIn (trimFrom t ns) = holdsTableIn ns := by
  fun_induction trimFrom t ns with
  | case1 t => exact holdsTableIn_flush t
  | case2 t s ns ih => exact ih
  | case3 t ns ih => exact ih
  | case4 t n ns _ _ ih =>
    rw [holdsTableIn_append, holdsTableIn_flush, holdsTableIn, ih, holdsTableIn, Bool.false_or]

mutual

theorem holdsTable_trimmed : (n : Node) → n.trimmed.holdsTable = n.holdsTable
  | .paragraph ns => (holdsTableIn_trimFrom .initial _).trans (holdsTableIn_trimmedAll ns)
  | .body ns | .list ns | .emphasis ns _ _ | .noteBox ns => holdsTableIn_trimmedAll ns
  | .table _ _ | .tableRow _ | .tableCell _ => rfl
  | .plainText _ | .escapedText _ _ | .codeSpan _ | .fencedCode _ _ | .linkTag _ _ _ | .softBreak
  | .heading _ _ | .anchor _ => rfl

theorem holdsTableIn_trimmedAll : (ns : List Node) →
    holdsTableIn (trimmedAll ns) = holdsTableIn ns
  | [] => rfl
  | n :: ns => congrArg₂ or (holdsTable_trimmed n) (holdsTableIn_trimmedAll ns)

end

theorem isEmpty_trimmedAll (ns : List Node) : (trimmedAll ns).isEmpty = ns.isEmpty := by
  cases ns <;> rfl

end ApiReference.Doc

namespace ApiReference.Markdown

open Doc Node Grammar Emission Writer

variable {resolver? : Option Resolver} {followed closes closes' : Bool} {n : Node}
variable {ns : List Node} {e e' : Emission}

/-! ## Links -/

/-- A step of the walk that ends at all ends with a value of which something is known, and it leaves
all tables or goes on where it was. -/
def Leaves {α : Type} (closes : Bool) (x : Walk α) (P : α → Prop) : Prop :=
  ∀ insideTable, Ensures (x.run insideTable).outcome fun found =>
    P found.1 ∧ found.2 = (insideTable && !closes)

theorem Leaves.pure {α : Type} {P : α → Prop} {a : α} (h : P a) :
    Leaves false (pure a : Walk α) P :=
  fun insideTable => Ensures.pure ⟨h, (Bool.and_true insideTable).symm⟩

theorem Leaves.bind {α β : Type} {x : Walk α} {f : α → Walk β} {P : α → Prop} {Q : β → Prop}
    (hx : Leaves closes x P) (hf : ∀ a, P a → Leaves closes' (f a) Q) :
    Leaves (closes || closes') (x >>= f) Q := by
  intro insideTable
  rw [StateT.run_bind]
  refine (hx insideTable).bindTraced fun found ⟨hfound, hinside⟩ => ?_
  rw [Bool.not_or, ← Bool.and_assoc, ← hinside]
  exact hf found.1 hfound found.2

/-- The last step of a walk puts its value together. -/
theorem Leaves.map {α β : Type} {x : Walk α} {f : α → β} {P : α → Prop} {Q : β → Prop}
    (hx : Leaves closes x P) (hf : ∀ a, P a → Q (f a)) :
    Leaves closes (do return f (← x)) Q :=
  Bool.or_false closes ▸ hx.bind fun a ha => .pure (hf a ha)

theorem Leaves.noted {α : Type} {P : α → Prop} {x : Noted α} (h : P x.value) :
    Leaves false (liftM x : Walk α) P := by
  rintro insideTable found hfound
  cases hfound
  exact ⟨h, (Bool.and_true insideTable).symm⟩

theorem Leaves.throw {α : Type} {P : α → Prop} (fault : Fault) :
    Leaves closes (throw fault : Walk α) P := by
  rintro insideTable found hfound
  cases hfound

theorem leaves_checkFence (language : Json) : Leaves false (checkFence language) fun _ => True := by
  intro insideTable
  unfold checkFence
  rw [StateT.run_bind]
  refine Ensures.bindTraced (P := fun found => found.2 = insideTable) (Ensures.pure rfl) ?_
  rintro ⟨inside, _⟩ rfl
  have hrefused : Leaves false (throw .wrongType : Walk Unit) fun _ => True := .throw .wrongType
  have haccepted : Leaves false (pure () : Walk Unit) fun _ => True := .pure trivial
  dsimp only
  split
  · exact hrefused _
  · exact haccepted _

/-- What a resolver finds leads somewhere. -/
theorem finds_any (resolver? : Option Resolver) : Finds resolver? fun _ => True :=
  fun _ _ _ _ _ _ _ => trivial

theorem holdsTable_resolveLink (reference : Text) (label? : Option Text) :
    (resolveLink resolver? reference label?).value.holdsTable = false := by
  obtain hdead | ⟨file, label, -, hlink⟩ :=
    resolveLink_value (finds_any resolver?) reference label?
  · rw [hdead]
    rfl
  · rw [hlink]
    rfl

mutual

theorem leaves_resolveLinks : (n : Node) →
    Leaves n.holdsTable (resolveLinks resolver? n) fun found => found.holdsTable = n.holdsTable
  | .paragraph ns | .body ns | .list ns | .emphasis ns _ _ | .noteBox ns =>
    (leaves_resolveAll ns).map fun _ h => h.1
  | .table header rows => by
    intro insideTable
    have hany : ∀ {α : Type} {x : Traced α}, Ensures x.outcome fun _ => True := fun _ _ => trivial
    rw [resolveLinks]
    simp only [StateT.run_bind]
    exact hany.bindTraced fun _ _ => hany.bindTraced fun _ _ => hany.bindTraced fun _ _ =>
      .bindTraced (P := fun found => found.2 = false) (.pure rfl) fun found hfound =>
        .pure ⟨rfl, hfound.trans (Bool.and_false insideTable).symm⟩
  | .tableRow _ | .tableCell _ => .throw _
  | .fencedCode _ language => (leaves_checkFence language).map fun _ _ => rfl
  | .linkTag (some (_ :: _)) _ _ => .noted (holdsTable_resolveLink _ _)
  | .linkTag (some []) _ _ | .linkTag none _ _ => .pure rfl
  | .plainText _ | .escapedText _ _ | .codeSpan _ | .softBreak | .heading _ _ | .anchor _ =>
    .pure rfl

theorem leaves_resolveAll : (ns : List Node) →
    Leaves (holdsTableIn ns) (resolveAll resolver? ns) fun found =>
      holdsTableIn found = holdsTableIn ns ∧ found.isEmpty = ns.isEmpty
  | [] => .pure ⟨rfl, rfl⟩
  | n :: ns => (leaves_resolveLinks n).bind fun _ hn => (leaves_resolveAll ns).map fun _ hns =>
    ⟨congrArg₂ or hn hns.1, rfl⟩

end

/-- The links of a node and its tables are found in the same places. -/
theorem insideTable_write (followed : Bool) {found : Node × Bool}
    (h : ((resolveLinks resolver? n).run e.insideTable).outcome = .ok found) :
    (write followed found.1.trimmed e).insideTable = found.2 := by
  obtain ⟨hholds, hinside⟩ := leaves_resolveLinks n e.insideTable found h
  rw [(frames_write found.1.trimmed followed).insideTable_eq, holdsTable_trimmed, hholds, hinside]

/-- What writing a node leaves of its surroundings: all of them, but that it leaves all tables if it
holds one. -/
theorem context_of_written (h : (written resolver? followed n e).outcome = .ok e') :
    e'.insideTable = (e.insideTable && !n.holdsTable) ∧ e'.listLevel = e.listLevel ∧
      Grows e.writer e'.writer := by
  obtain ⟨found, hfound, rfl⟩ := written_eq_ok.mp h
  have hframes := frames_write found.1.trimmed followed
  have hinside := (leaves_resolveLinks n e.insideTable found hfound).2
  exact ⟨(insideTable_write followed hfound).trans hinside, hframes.listLevel_eq e, hframes.grows e⟩

/-! ## Siblings -/

/-- Writes nodes one after the other. -/
def writtenAll (resolver? : Option Resolver) : List Node → Emission → Traced Emission
  | [], e => return e
  | n :: ns, e => do
    let e ← written resolver? (!ns.isEmpty) n e
    writtenAll resolver? ns e

/-- References may as well be resolved first. -/
theorem writtenAll_eq (ns : List Node) (e : Emission) :
    writtenAll resolver? ns e = do
      let found ← (resolveAll resolver? ns).run e.insideTable
      return writeAll (trimmedAll found.1) e := by
  induction ns generalizing e with
  | nil => rfl
  | cons n ns ih =>
    rw [writtenAll, written, bind_assoc, resolveAll, StateT.run_bind, bind_assoc]
    refine Ensures.bind_congr (fun _ h => h) fun found hfound => ?_
    rw [pure_bind, ih, insideTable_write _ hfound, StateT.run_bind, bind_assoc]
    refine (leaves_resolveAll ns found.2).bind_congr fun later hlater => ?_
    obtain ⟨⟨-, hempty⟩, -⟩ := hlater
    rw [StateT.run_pure, pure_bind, trimmedAll, writeAll, isEmpty_trimmedAll, hempty]

/-- A section is written as the nodes in it are, one after the other. -/
theorem written_body (ns : List Node) (e : Emission) :
    written resolver? followed (.body ns) e = writtenAll resolver? ns e := by
  rw [writtenAll_eq, written, resolveLinks, StateT.run_bind, bind_assoc]
  rfl

/-- The text once nodes are written as well. -/
def textAfter (resolver? : Option Resolver) (ns : List Node) (e : Emission) : Traced Text := do
  return (← writtenAll resolver? ns e).writer.text

/-- Emissions that differ in nothing but how the text so far is cut into chunks. -/
def Alike (e e' : Emission) : Prop :=
  ∃ (base : Emission) (older older' : List Text),
    older.reverse.flatten = older'.reverse.flatten ∧ e = base.under older ∧ e' = base.under older'

namespace Alike

theorem insideTable_eq (h : Alike e e') : e.insideTable = e'.insideTable := by
  obtain ⟨base, older, older', -, rfl, rfl⟩ := h
  rfl

theorem text_eq (h : Alike e e') : e.writer.text = e'.writer.text := by
  obtain ⟨base, older, older', htext, rfl, rfl⟩ := h
  calc (base.writer.under older).text
      = older.reverse.flatten ++ base.writer.text := text_under older base.writer
    _ = older'.reverse.flatten ++ base.writer.text := by rw [htext]
    _ = (base.writer.under older').text := (text_under older' base.writer).symm

/-- What a writer remembers of its text is told by the text. -/
theorem of_coherent (he : e.writer.Coherent) (he' : e'.writer.Coherent)
    (htext : e.writer.text = e'.writer.text) (hindents : e.writer.indents = e'.writer.indents)
    (hinside : e.insideTable = e'.insideTable) (hlevel : e.listLevel = e'.listLevel) :
    Alike e e' := by
  obtain ⟨⟨chunks, tail, atLineStart, indents, indent, rfl⟩, inside, level⟩ := e
  obtain ⟨⟨chunks', tail', atLineStart', indents', indent', rfl⟩, inside', level'⟩ := e'
  have htail : tail = tail' :=
    he.remembers.trans ((congrArg (lastOf 2) htext).trans he'.remembers.symm)
  have hstart : atLineStart = atLineStart' :=
    Bool.eq_iff_iff.mpr (he.atLineStart_iff.trans (htext ▸ he'.atLineStart_iff.symm))
  subst hinside hlevel hindents htail hstart
  exact ⟨⟨⟨[], tail, atLineStart, indents, _, rfl⟩, inside, level⟩, chunks, chunks', htext, rfl,
    rfl⟩

/-- They stay so, whatever is written. -/
theorem frames {f : Emission → Emission} (hf : Frames closes f) (h : Alike e e') :
    Alike (f e) (f e') := by
  obtain ⟨base, older, older', htext, rfl, rfl⟩ := h
  exact ⟨f base, older, older', htext, hf.under older base, hf.under older' base⟩

end Alike

/-- What is written behind emissions that are alike gives the same text and the same notices. -/
theorem textAfter_eq (h : Alike e e') (ns : List Node) :
    textAfter resolver? ns e = textAfter resolver? ns e' := by
  rw [textAfter, textAfter, writtenAll_eq, writtenAll_eq, h.insideTable_eq, bind_assoc, bind_assoc]
  refine bind_congr fun found => ?_
  rw [pure_bind, pure_bind, (h.frames (frames_writeAll (trimmedAll found.1))).text_eq]

/-- Anything in a valid section can be written if code can be fenced with its languages. -/
theorem exists_written {root : List Node} (hvalid : standard.validate (.body root) = .ok ())
    (hopens : ∀ code language, .fencedCode code language ∈ inside (.body root) →
      opensFence language = true) (hn : n ∈ inside (.body root)) :
    ∃ e', (written resolver? followed n e).outcome = .ok e' := by
  have hleaf : ∀ m ∈ inside (.body root), m.isLeaf = true → PageLeaf (fun _ => True) m := by
    intro m hm _
    cases m with
    | fencedCode code language => exact hopens code language hm
    | linkTag reference? url? text? => cases url? <;> trivial
    | _ => trivial
  have hroot : Sound (PageLeaf fun _ => True) (.body root) :=
    .of_validate _ hvalid ⟨by simp [kind], by simp [kind]⟩ hleaf
  obtain ⟨found, hfound, -⟩ :=
    goes_resolveLinks (finds_any resolver?) (hroot.of_mem_inside hn) e.insideTable
  exact ⟨_, written_eq_ok.mpr ⟨found, hfound, rfl⟩⟩

/-- Siblings that make the same text and leave the same tables leave emissions that are alike. -/
theorem alike_of_written {n' : Node} {e₁ e₂ : Emission} (hw : e.writer.Coherent)
    (h₁ : (written resolver? followed n e).outcome = .ok e₁)
    (h₂ : (written resolver? followed n' e).outcome = .ok e₂)
    (htext : e₁.writer.text = e₂.writer.text)
    (htables : e.insideTable = true → n.holdsTable = n'.holdsTable) : Alike e₁ e₂ := by
  obtain ⟨hinside₁, hlevel₁, hgrows₁⟩ := context_of_written h₁
  obtain ⟨hinside₂, hlevel₂, hgrows₂⟩ := context_of_written h₂
  refine .of_coherent (hw.grows hgrows₁) (hw.grows hgrows₂) htext
    (hgrows₁.indents_eq.trans hgrows₂.indents_eq.symm) ?_ (hlevel₁.trans hlevel₂.symm)
  rw [hinside₁, hinside₂]
  cases hinside : e.insideTable with
  | false => rfl
  | true => rw [htables hinside]

/-- Writing anything that a valid section holds leaves the indents and the depth of lists as they
were, and so it does with the tables around, but that all are left if the node holds a table. What
is written behind it, and the notices that gives, depends on nothing more than the text. -/
theorem written_context {root : List Node} (hvalid : standard.validate (.body root) = .ok ())
    (hn : n ∈ inside (.body root)) (operations : List Operation) (insideTable : Bool)
    (listLevel : Nat) (resolver? : Option Resolver) (followed : Bool) :
    let e : Emission := ⟨Writer.empty.run operations, insideTable, listLevel⟩
    (∀ e₁, (written resolver? followed n e).outcome = .ok e₁ →
      e₁.insideTable = (insideTable && !n.holdsTable) ∧ e₁.listLevel = listLevel ∧
      e₁.writer.indents = e.writer.indents ∧
      ∀ n' e₂, (written resolver? followed n' e).outcome = .ok e₂ →
        e₁.writer.text = e₂.writer.text → (insideTable = true → n.holdsTable = n'.holdsTable) →
        Alike e₁ e₂ ∧ ∀ later, textAfter resolver? later e₁ = textAfter resolver? later e₂) ∧
    ((∀ code language, .fencedCode code language ∈ inside (.body root) →
      opensFence language = true) → ∃ e₁, (written resolver? followed n e).outcome = .ok e₁) := by
  intro e
  refine ⟨fun e₁ h₁ => ?_, fun hopens => exists_written hvalid hopens hn⟩
  have hw : e.writer.Coherent := Coherent.empty.run operations
  obtain ⟨hinside, hlevel, hgrows⟩ := context_of_written h₁
  refine ⟨hinside, hlevel, hgrows.indents_eq, fun n' e₂ h₂ htext htables => ?_⟩
  have halike := alike_of_written hw h₁ h₂ htext htables
  exact ⟨halike, textAfter_eq halike⟩

theorem written_context_noteBox :
    let box : Node := .noteBox [.table (Node.titles ["A", "B"]) [], .list [.plainText "item"]]
    let root : List Node := [.table (Node.titles ["Out"]) [[[.paragraph [.plainText "in"], box]]]]
    let e : Emission := ⟨Writer.empty.run [.increaseIndent "  ", .write "before"], true, 2⟩
    standard.validate (.body root) = .ok () ∧ box ∈ inside (.body root) ∧
    (∀ e₁, (written none true box e).outcome = .ok e₁ →
      e₁.insideTable = (true && !box.holdsTable) ∧ e₁.listLevel = 2 ∧
      e₁.writer.indents = e.writer.indents ∧
      ∀ n' e₂, (written none true n' e).outcome = .ok e₂ → e₁.writer.text = e₂.writer.text →
        (true = true → box.holdsTable = n'.holdsTable) →
        Alike e₁ e₂ ∧ ∀ later, textAfter none later e₁ = textAfter none later e₂) ∧
    ((∀ code language, .fencedCode code language ∈ inside (.body root) →
      opensFence language = true) → ∃ e₁, (written none true box e).outcome = .ok e₁) := by
  intro box root e
  have hvalid : standard.validate (.body root) = .ok () := rfl
  have hbox : box ∈ inside (.body root) := by
    simp [root, inside, insideAll, insideCells, insideRows, mem_inside_self]
  exact ⟨hvalid, hbox, written_context hvalid hbox _ true 2 none true⟩

/-- A table in a cell of a table leaves both: the code behind it is fenced in the middle of a cell,
and not written as preformatted HTML. -/
theorem written_table_in_cell :
    let inner : Node := .table (Node.titles ["In"]) []
    let root : List Node :=
      [.table (Node.titles ["Out"]) [[[inner, .fencedCode "x\ny" (.text "ts")]]]]
    let e : Emission := openTable .initial
    standard.validate (.body root) = .ok () ∧ inner ∈ inside (.body root) ∧
    e.insideTable = true ∧
    (written none true inner e).outcome = .ok (write true inner e) ∧
    (write true inner e).insideTable = false ∧
    (emit none (.body root)).outcome.toOption = some ("|  Out |\n|  --- |\n|  \n\n" ++
      "|  In |\n|  --- |\n\n\x60\x60\x60ts\nx\ny\n\x60\x60\x60\n |\n\n" : Text) := by
  intro inner root e
  have hinner : inner ∈ inside (.body root) := by
    simp [root, inside, insideAll, insideCells, insideRows, mem_inside_self]
  exact ⟨rfl, hinner, rfl, rfl, rfl, by decide +kernel⟩

end ApiReference.Markdown
