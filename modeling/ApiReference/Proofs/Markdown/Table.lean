import ApiReference.Proofs.Diagnostics.Outcome
import ApiReference.Proofs.Markdown.Cells
import Mathlib.Order.Bounds.Basic
import Mathlib.Order.MinMax

/-!
# Tables

A table is written as one line for its header, one for the rule below it and one for
each row, and a blank line.  Whatever its cells hold, no line is broken and none has
more or fewer open pipes than its columns need: the content of a cell adds none
(`adds_writeAll_cell`), every cell that is there or is missing adds one, and one more
starts the line.
-/

namespace ApiReference.Markdown

open Doc Text Emission

variable {header row : List (List Node)} {rows : List (List (List Node))} {n : Node}
variable {ns : List Node} {e e' e'' : Emission} {w : Writer} {columns count count' : Nat}
variable {resolver? : Option Resolver}

/-! ## The number of columns -/

theorem le_foldl_max (rows : List (List (List Node))) (k : Nat) :
    k ≤ rows.foldl (fun n row => max n row.length) k ∧
    ∀ row ∈ rows, row.length ≤ rows.foldl (fun n row => max n row.length) k := by
  induction rows generalizing k with
  | nil => exact ⟨le_rfl, List.forall_mem_nil _⟩
  | cons row rows ih =>
    obtain ⟨hk, hrows⟩ := ih (max k row.length)
    rw [List.foldl_cons]
    exact ⟨(le_max_left _ _).trans hk,
      List.forall_mem_cons.mpr ⟨(le_max_right _ _).trans hk, hrows⟩⟩

theorem foldl_max_mem (rows : List (List (List Node))) (k : Nat) :
    rows.foldl (fun n row => max n row.length) k = k ∨
    ∃ row ∈ rows, row.length = rows.foldl (fun n row => max n row.length) k := by
  induction rows generalizing k with
  | nil => exact .inl rfl
  | cons row rows ih =>
    rw [List.foldl_cons]
    rcases ih (max k row.length) with h | ⟨row', hrow', h⟩
    · rcases max_choice k row.length with hmax | hmax
      · exact .inl (h.trans hmax)
      · exact .inr ⟨row, List.mem_cons_self .., (h.trans hmax).symm⟩
    · exact .inr ⟨row', List.mem_cons_of_mem _ hrow', h⟩

/-- A table is as wide as the longest of its header and rows. -/
theorem isGreatest_columnCount (header : List (List Node)) (rows : List (List (List Node))) :
    IsGreatest {k | ∃ row ∈ header :: rows, row.length = k} (columnCount header rows) := by
  constructor
  · rcases foldl_max_mem rows header.length with h | ⟨row, hrow, h⟩
    · exact ⟨header, List.mem_cons_self .., h.symm⟩
    · exact ⟨row, List.mem_cons_of_mem _ hrow, h⟩
  · rintro k ⟨row, hrow, rfl⟩
    obtain ⟨hheader, hrows⟩ := le_foldl_max rows header.length
    rcases List.mem_cons.mp hrow with rfl | hrow
    · exact hheader
    · exact hrows row hrow

/-! ## References -/

/-- A node inside a table that stays as it is when references are replaced. -/
def Stays (resolver? : Option Resolver) (n : Node) : Prop :=
  ((resolveLinks resolver? n).run true).outcome = .ok (n, true)

theorem run_bind_outcome {α β : Type} {x : Walk α} {f : α → Walk β} {insideTable inside' : Bool}
    {a : α} (hx : (x.run insideTable).outcome = .ok (a, inside')) :
    ((x >>= f).run insideTable).outcome = ((f a).run inside').outcome := by
  rw [StateT.run_bind, Traced.outcome_bind, hx, Except.ok_bind]

theorem resolveAll_eq (h : ∀ n ∈ ns, Stays resolver? n) :
    ((resolveAll resolver? ns).run true).outcome = .ok (ns, true) := by
  induction ns with
  | nil => rfl
  | cons n ns ih =>
    obtain ⟨hn, hns⟩ := List.forall_mem_cons.mp h
    rw [resolveAll, run_bind_outcome hn, run_bind_outcome (ih hns)]
    rfl

theorem stays_of_inLine (h : InLine n) : Stays resolver? n := by
  induction h with
  | @emphasis ns bold italic _ ih =>
    rw [Stays, resolveLinks, run_bind_outcome (resolveAll_eq ih)]
    rfl
  | plainText _ | escapedText _ | codeSpan _ | softBreak | link _ => rfl

theorem stays_of_cellNode (h : CellNode n) : Stays resolver? n := by
  cases h with
  | @paragraph ns hns =>
    have hstays : ∀ n ∈ ns, Stays resolver? n := by
      intro n hn
      cases hns n hn with
      | plainText text => rfl
      | inLine hline => exact stays_of_inLine hline
    rw [Stays, resolveLinks, run_bind_outcome (resolveAll_eq hstays)]
    rfl
  | fencedCode _ _ _ => rfl

theorem resolveCells_eq (h : ∀ c ∈ row, ∀ n ∈ c, CellNode n) :
    ((resolveCells resolver? row).run true).outcome = .ok (row, true) := by
  induction row with
  | nil => rfl
  | cons c cs ih =>
    obtain ⟨hc, hcs⟩ := List.forall_mem_cons.mp h
    have hcell : ∀ n ∈ c, Stays resolver? n := fun n hn => stays_of_cellNode (hc n hn)
    rw [resolveCells, run_bind_outcome (resolveAll_eq hcell), run_bind_outcome (ih hcs)]
    rfl

theorem resolveRows_eq (h : ∀ row ∈ rows, ∀ c ∈ row, ∀ n ∈ c, CellNode n) :
    ((resolveRows resolver? rows).run true).outcome = .ok (rows, true) := by
  induction rows with
  | nil => rfl
  | cons row rows ih =>
    obtain ⟨hrow, hrows⟩ := List.forall_mem_cons.mp h
    rw [resolveRows, run_bind_outcome (resolveCells_eq hrow), run_bind_outcome (ih hrows)]
    rfl

/-- A table without references stays as it is. -/
theorem linked_table (resolver? : Option Resolver)
    (h : ∀ row ∈ header :: rows, ∀ c ∈ row, ∀ n ∈ c, CellNode n) :
    (linked resolver? (.table header rows)).outcome = .ok (.table header rows) := by
  obtain ⟨hheader, hrows⟩ := List.forall_mem_cons.mp h
  have hopen : ((set true : Walk PUnit).run false).outcome = .ok (⟨⟩, true) := rfl
  have hclose : ((set false : Walk PUnit).run true).outcome = .ok (⟨⟩, false) := rfl
  rw [linked, StateT.run'_eq, map_eq_pure_bind, Traced.outcome_bind, resolveLinks,
    run_bind_outcome hopen, run_bind_outcome (resolveCells_eq hheader),
    run_bind_outcome (resolveRows_eq hrows), run_bind_outcome hclose]
  rfl

/-! ## Rows -/

/-- A line of a table with a number of columns. -/
structure RowLine (columns : Nat) (line : Text) : Prop where
  oneLine : OneLine line
  start : ("| " : Text) <+: line
  openPipes_eq : openPipes line = columns + 1

/-- Lines of a table were written. -/
def AddsRows (columns count : Nat) (e e' : Emission) : Prop :=
  InTable e' ∧ ∃ lines : List Text, lines.length = count ∧
    e'.writer.text = e.writer.text ++ lines.flatMap (· ++ ['\n']) ∧
    ∀ l ∈ lines, RowLine columns l

theorem AddsRows.trans (h : AddsRows columns count e e') (h' : AddsRows columns count' e' e'') :
    AddsRows columns (count + count') e e'' := by
  obtain ⟨_, lines, rfl, htext, hlines⟩ := h
  obtain ⟨he, lines', rfl, htext', hlines'⟩ := h'
  refine ⟨he, lines ++ lines', List.length_append, ?_, List.forall_mem_append.mpr ⟨hlines, hlines'⟩⟩
  rw [htext', htext, List.flatMap_append, List.append_assoc]

/-- A row is a pipe and a space, what its columns add, and a newline. -/
theorem addsRows_row (he : InTable e) (h : Adds columns (openRow e) e') :
    AddsRows columns 1 e (e'.lift Writer.newline) := by
  obtain ⟨hinside, hindents, t, htext, ht⟩ := h
  have hstart : (openRow e).writer.text = e.writer.text ++ "| " :=
    Writer.text_write_of_oneLine he.indents ⟨by decide, by decide⟩
  refine ⟨⟨hinside, ?_⟩, [("| " : Text) ++ t], rfl, ?_, List.forall_mem_singleton.mpr ⟨?_, ?_, ?_⟩⟩
  · exact (Writer.indents_newline _).trans hindents
  · rw [lift, Writer.text_newline hindents, htext, hstart]
    simp
  · exact OneLine.append ⟨by decide, by decide⟩ ht.oneLine
  · exact List.prefix_append _ _
  · rw [openPipes, openPipesFrom_append, ht.openPipes_eq, Nat.add_comm]
    rfl

theorem adds_openRow (he : InTable e) : InTable (openRow e) :=
  ⟨he.insideTable, (Writer.indents_write _ _).trans he.indents⟩

theorem piped_bar : Piped 1 " |" := by
  refine ⟨⟨by decide, by decide⟩, fun escaped => ?_⟩
  cases escaped <;> rfl

theorem piped_space : Piped 0 " " := .mark rfl

/-- Every cell adds one open pipe. -/
theorem adds_writeCells (h : ∀ c ∈ row, ∀ n ∈ c, CellNode n) (he : InTable e) :
    Adds row.length e (writeCells (trimmedCells row) e) := by
  induction row generalizing e with
  | nil => exact .refl he
  | cons c cs ih =>
    obtain ⟨hc, hcs⟩ := List.forall_mem_cons.mp h
    have hspace := Adds.put he piped_space
    have hcell := hspace.trans_closed (adds_writeAll_cell hc hspace.inTable)
    have hbar := hcell.trans (.put hcell.inTable piped_bar)
    have hall := hbar.trans (ih hcs hbar.inTable)
    rwa [Nat.zero_add, Nat.add_comm] at hall

/-- Every missing cell adds one open pipe. -/
theorem writes_padCells (hw : w.indents = []) (k : Nat) : Writes k w (padCells k w) := by
  induction k generalizing w with
  | zero => exact .refl hw
  | succ k ih =>
    have hspace := Writes.write hw piped_space
    have hbar := hspace.trans (.write hspace.1 piped_bar)
    have hall := hbar.trans (ih hbar.1)
    rwa [Nat.zero_add, Nat.add_comm] at hall

theorem writes_ruleCells (hw : w.indents = []) (k : Nat) : Writes k w (ruleCells k w) := by
  induction k generalizing w with
  | zero => exact .refl hw
  | succ k ih =>
    have hrule : Piped 1 " --- |" := by
      refine ⟨⟨by decide, by decide⟩, fun escaped => ?_⟩
      cases escaped <;> rfl
    have hbar := Writes.write hw hrule
    have hall := hbar.trans (ih hbar.1)
    rwa [Nat.add_comm] at hall

@[simp] theorem length_trimmedCells (cells : List (List Node)) :
    (trimmedCells cells).length = cells.length := by
  induction cells with
  | nil => rfl
  | cons c cs ih => rw [trimmedCells, List.length_cons, ih, List.length_cons]

/-- A row that is not longer than the table is wide becomes one line. -/
theorem addsRows_writeCells (h : ∀ c ∈ row, ∀ n ∈ c, CellNode n) (hlen : row.length ≤ columns)
    (he : InTable e) :
    AddsRows columns 1 e (closeRow (columns - (trimmedCells row).length)
      (writeCells (trimmedCells row) (openRow e))) := by
  rw [length_trimmedCells]
  have hcells := adds_writeCells h (adds_openRow he)
  have hpads := hcells.trans
    (.lift hcells.inTable (writes_padCells hcells.inTable.indents (columns - row.length)))
  rw [Nat.add_sub_cancel' hlen] at hpads
  exact addsRows_row he hpads

theorem addsRows_writeRows (h : ∀ row ∈ rows, ∀ c ∈ row, ∀ n ∈ c, CellNode n)
    (hlen : ∀ row ∈ rows, row.length ≤ columns) (he : InTable e) :
    AddsRows columns rows.length e (writeRows columns (trimmedRows rows) e) := by
  induction rows generalizing e with
  | nil => exact ⟨he, [], rfl, (List.append_nil _).symm, List.forall_mem_nil _⟩
  | cons row rows ih =>
    obtain ⟨hrow, hrows⟩ := List.forall_mem_cons.mp h
    obtain ⟨hlrow, hlrows⟩ := List.forall_mem_cons.mp hlen
    have hfirst := addsRows_writeCells hrow hlrow he
    have hall := hfirst.trans (ih hrows hlrows hfirst.1)
    rwa [Nat.add_comm] at hall

theorem columnCount_trimmed (header : List (List Node)) (rows : List (List (List Node))) :
    columnCount (trimmedCells header) (trimmedRows rows) = columnCount header rows := by
  have hrows : ∀ k, (trimmedRows rows).foldl (fun n row => max n row.length) k =
      rows.foldl (fun n row => max n row.length) k := by
    induction rows with
    | nil => exact fun _ => rfl
    | cons row rows ih =>
      intro k
      rw [trimmedRows, List.foldl_cons, List.foldl_cons, length_trimmedCells, ih]
  rw [columnCount, columnCount, hrows, length_trimmedCells]

/-! ## The whole table -/

/-- Header, rule and rows are a line each. -/
theorem write_table (followed : Bool) (h : ∀ row ∈ header :: rows, ∀ c ∈ row, ∀ n ∈ c, CellNode n)
    (he : InTable (openTable e)) :
    ∃ e', AddsRows (columnCount header rows) (2 + rows.length) (openTable e) e' ∧
      write followed (Node.table header rows).trimmed e = closeTable e' := by
  obtain ⟨hheader, hrows⟩ := List.forall_mem_cons.mp h
  obtain ⟨_, hgreatest⟩ := isGreatest_columnCount header rows
  have hfirst := addsRows_writeCells hheader
    (hgreatest ⟨header, List.mem_cons_self .., rfl⟩) he
  have hopen := adds_openRow hfirst.1
  have hrule := addsRows_row hfirst.1
    (.lift hopen (writes_ruleCells hopen.indents (columnCount header rows)))
  have hrest := addsRows_writeRows hrows
    (fun row hrow => hgreatest ⟨row, List.mem_cons_of_mem _ hrow, rfl⟩) hrule.1
  refine ⟨_, (hfirst.trans hrule).trans hrest, ?_⟩
  rw [Node.trimmed, write, columnCount_trimmed]
  rfl

/-- Whatever stands in the cells of a table, it is written as one line for the header, one for the
rule and one for each row, and a blank line.  Every line starts like a row, and its open pipes bound
as many cells as the longest row has. -/
theorem emit_table (resolver? : Option Resolver)
    (h : ∀ row ∈ header :: rows, ∀ c ∈ row, ∀ n ∈ c, CellNode n) :
    ∃ (text : Text) (lines : List Text),
      (emit resolver? (.table header rows)).outcome = .ok text ∧
      Text.splitAt '\n' text = lines ++ [[], []] ∧ lines.length = 2 + rows.length ∧
      (∀ l ∈ lines, '\r' ∉ l ∧ ("| " : Text) <+: l ∧
        openPipes l = columnCount header rows + 1) ∧
      IsGreatest {k | ∃ row ∈ header :: rows, row.length = k} (columnCount header rows) := by
  have hstart : InTable (openTable .initial) := ⟨rfl, rfl⟩
  obtain ⟨e', ⟨he, lines, hlength, htext, hlines⟩, hwrite⟩ := write_table false h hstart
  have hrender : render (.table header rows) = lines.flatMap (· ++ ['\n']) ++ ['\n'] := by
    rw [render, hwrite, closeTable, lift, Writer.ensureNewLine, Writer.last?_newline]
    exact (Writer.text_newline he.indents).trans (congrArg (· ++ ['\n']) htext)
  refine ⟨render (.table header rows), lines, ?_, ?_, hlength, ?_,
    isGreatest_columnCount header rows⟩
  · rw [emit, Traced.outcome_bind, linked_table resolver? h, Except.ok_bind, Traced.outcome_pure]
  · rw [hrender]
    exact splitAt_flatMap_lines (fun l hl => (hlines l hl).oneLine.1) ['\n']
  · exact fun l hl => ⟨(hlines l hl).oneLine.2, (hlines l hl).start, (hlines l hl).openPipes_eq⟩

/-- Rows of different lengths, with line breaks and pipes in text and code. -/
def raggedRows : List (List (List Node)) := [
  [[.paragraph [.plainText "a|b\nc", .softBreak, .codeSpan "p|q\nr"]],
    [.fencedCode "f |\r\ng\n" (.text "ts")]],
  [],
  [[.paragraph [.emphasis [.plainText "|"] true false, .linkTag none (some "./d.md") (some "|")]]]]

theorem emit_raggedRows :
    (∀ row ∈ [] :: raggedRows, ∀ c ∈ row, ∀ n ∈ c, CellNode n) ∧
    ∃ (text : Text) (lines : List Text),
      (emit none (.table [] raggedRows)).outcome = .ok text ∧
      Text.splitAt '\n' text = lines ++ [[], []] ∧ lines.length = 2 + raggedRows.length ∧
      (∀ l ∈ lines, '\r' ∉ l ∧ ("| " : Text) <+: l ∧
        openPipes l = columnCount [] raggedRows + 1) ∧
      IsGreatest {k | ∃ row ∈ [] :: raggedRows, row.length = k} (columnCount [] raggedRows) := by
  have hlink : LinkFits (some "./d.md") (some "|") := by
    refine ⟨?_, fun h => absurd h (by simp)⟩
    rintro url ⟨⟩
    exact ⟨⟨by decide, by decide⟩, by decide⟩
  have hcells : ∀ row ∈ [] :: raggedRows, ∀ c ∈ row, ∀ n ∈ c, CellNode n := by
    simp only [raggedRows, List.forall_mem_cons, List.not_mem_nil, false_implies, implies_true,
      and_true, true_and]
    refine ⟨⟨.paragraph ?_, .fencedCode (by decide) ⟨by decide, by decide⟩ (by decide)⟩,
      .paragraph ?_⟩
    · simp only [List.forall_mem_cons, List.not_mem_nil, false_implies, implies_true, and_true]
      exact ⟨.plainText _, .inLine .softBreak, .inLine (.codeSpan (by decide))⟩
    · simp only [List.forall_mem_cons, List.not_mem_nil, false_implies, implies_true, and_true]
      refine ⟨.inLine (.emphasis ?_), .inLine (.link hlink)⟩
      exact List.forall_mem_singleton.mpr (.plainText ⟨by decide, by decide⟩)
  exact ⟨hcells, emit_table none hcells⟩

end ApiReference.Markdown
