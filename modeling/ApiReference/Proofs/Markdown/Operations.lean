import ApiReference.Proofs.Markdown.Writer
import Mathlib.Data.List.Infix

/-!
# What a writer knows of its text

All that is written goes into the text as newlines and as parts of lines (`Grows`).  Each
of these keeps account of how the text ends (`Coherent`), so that a writer knows after
any operations whether it is at the start of a line.  The indents in force are those put
on and not taken off again, which can be read off the operations by counting
(`pending`).
-/

namespace ApiReference.Markdown.Writer

open Text

variable {w w' : Writer} {t : Text} {ts : List Text} {k : Nat}
variable {operation : Operation} {operations : List Operation}

/-! ## Newlines and parts of lines -/

/-- What can be written: newlines, parts of lines, and text that is indented further. -/
inductive Grows : Writer → Writer → Prop
  | refl (w : Writer) : Grows w w
  | trans {w w' w'' : Writer} : Grows w w' → Grows w' w'' → Grows w w''
  | newline (w : Writer) : Grows w w.newline
  | part (w : Writer) {t : Text} : OneLine t → Grows w (w.part t)
  | indented {w w' : Writer} {p : Text} : OneLine p → Grows (w.increaseIndent p) w' →
      Grows w w'.dropIndent

namespace Grows

theorem parts (w : Writer) (h : ∀ t ∈ ts, OneLine t) : Grows w (Writer.parts ts w) := by
  fun_induction Writer.parts ts w with
  | case1 w => exact .refl w
  | case2 t w => exact .part w (h t (List.mem_cons_self ..))
  | case3 t ts w _ ih =>
    obtain ⟨ht, hts⟩ := List.forall_mem_cons.mp h
    exact ((part w ht).trans (newline _)).trans (ih hts)

theorem write (w : Writer) (t : Text) : Grows w (w.write t) :=
  parts w fun _ => oneLine_of_mem_splitAt

theorem writeLine (w : Writer) (t : Text) : Grows w (w.writeLine t) := (write w t).trans (newline _)

theorem ensureNewLine (w : Writer) : Grows w w.ensureNewLine := by
  unfold Writer.ensureNewLine
  split
  · exact .refl w
  · exact .refl w
  · exact .newline w

theorem ensureSkippedLine (w : Writer) : Grows w w.ensureSkippedLine := by
  unfold Writer.ensureSkippedLine
  split
  · exact .refl w
  · dsimp only
    split
    · exact ensureNewLine w
    · exact (ensureNewLine w).trans (newline _)

/-- The indents are left as they were. -/
theorem indents_eq (h : Grows w w') : w'.indents = w.indents := by
  induction h with
  | refl w => rfl
  | trans _ _ ih ih' => exact ih'.trans ih
  | newline w => exact indents_newline w
  | part w _ => exact indents_part w _
  | indented _ _ ih => exact congrArg List.tail ih

theorem indent_eq (h : Grows w w') : w'.indent = w.indent := indent_congr h.indents_eq

end Grows

theorem indent_increaseIndent (w : Writer) (p : Text) :
    (w.increaseIndent p).indent = w.indent ++ p := by
  simp [indent_eq]

/-! ## Accounts of the text -/

/-- A writer remembers the last two characters of its text, and whether it is at the start of a
line. -/
structure Coherent (w : Writer) : Prop where
  remembers : w.Remembers
  atLineStart_iff : w.atLineStart = true ↔ w.text = [] ∨ w.text.getLast? = some '\n'

namespace Coherent

theorem empty : Coherent .empty := ⟨rfl, iff_of_true rfl (.inl rfl)⟩

/-- The indents are no part of the account. -/
theorem reindent (h : w.Coherent) (indents : List Text) : Coherent (w.withIndents indents) :=
  ⟨h.remembers, h.atLineStart_iff⟩

theorem grows (hw : w.Coherent) (h : Grows w w') : w'.Coherent := by
  induction h with
  | refl w => exact hw
  | trans _ _ ih ih' => exact ih' (ih hw)
  | newline w =>
    refine ⟨hw.remembers.newline, iff_of_true rfl (.inr ?_)⟩
    rw [text_newline_eq]
    exact List.getLast?_concat
  | @part w t ht =>
    by_cases hnil : t = []
    · rwa [hnil]
    · have hlast : (w.part t).text.getLast? = t.getLast? := by
        rw [text_part_eq w hnil, List.getLast?_append_of_ne_nil _ hnil]
      refine ⟨hw.remembers.part t, iff_of_false ?_ ?_⟩
      · simp [part, hnil]
      · rw [hlast]
        rintro (h | h)
        · rw [text_part_eq w hnil] at h
          exact hnil (List.append_eq_nil_iff.mp h).2
        · exact ht.1 (List.mem_of_getLast? h)
  | indented _ _ ih => exact (ih (hw.reindent _)).reindent _

theorem secondLast?_eq (h : w.Coherent) : w.secondLast? = w.text.dropLast.getLast? := by
  rw [secondLast?, h.remembers, lastOf, List.dropLast_drop_eq_drop_dropLast, List.getLast?_drop]
  split
  · rename_i hlen
    have hnil : w.text.dropLast = [] := by
      rw [List.length_dropLast] at hlen
      exact List.eq_nil_of_length_eq_zero (by rw [List.length_dropLast]; omega)
    rw [hnil]
    rfl
  · rfl

end Coherent

theorem Remembers.tail_eq_nil_iff (h : w.Remembers) : w.tail = [] ↔ w.text = [] := by
  rw [h, lastOf, List.drop_eq_nil_iff]
  constructor
  · intro hle
    exact List.eq_nil_of_length_eq_zero (by omega)
  · intro hnil
    rw [hnil]
    exact Nat.zero_le _

/-- A line is ended if one was begun. -/
theorem ensureNewLine_eq (h : w.Coherent) :
    w.ensureNewLine = if w.atLineStart then w else w.newline := by
  have hlast := h.remembers.last?_eq
  rw [ensureNewLine]
  split
  · rename_i hnone
    rw [if_pos (h.atLineStart_iff.mpr (.inl (List.getLast?_eq_none_iff.mp (hlast ▸ hnone))))]
  · rename_i hfeed
    rw [if_pos (h.atLineStart_iff.mpr (.inr (hlast ▸ hfeed)))]
  · rename_i hnone hfeed
    rw [if_neg]
    rintro hstart
    rcases h.atLineStart_iff.mp hstart with hnil | hlf
    · exact hnone (hlast.trans (List.getLast?_eq_none_iff.mpr hnil))
    · exact hfeed (hlast.trans hlf)

theorem atLineStart_ensureNewLine (h : w.Coherent) : w.ensureNewLine.atLineStart = true := by
  rw [ensureNewLine_eq h]
  split
  · assumption
  · rfl

theorem text_ensureNewLine (h : w.Coherent) :
    w.ensureNewLine.text = w.text ++ if w.atLineStart then [] else ['\n'] := by
  rw [ensureNewLine_eq h]
  split
  · exact (List.append_nil _).symm
  · rename_i hstart
    rw [text_newline_eq, text_putIndent, if_neg hstart, List.append_nil]

/-- Nothing that was written changes. -/
theorem Grows.text_isPrefix (h : Grows w w') : w.text <+: w'.text := by
  induction h with
  | refl w => exact List.prefix_rfl
  | trans _ _ ih ih' => exact ih.trans ih'
  | newline w =>
    rw [text_newline_eq, text_putIndent, List.append_assoc]
    exact List.prefix_append _ _
  | @part w t _ =>
    by_cases ht : t = []
    · rw [ht]
      exact List.prefix_rfl
    · rw [text_part_eq w ht, text_putIndent, List.append_assoc]
      exact List.prefix_append _ _
  | indented _ _ ih => exact ih

/-- Carriage returns come from the indents only. -/
theorem Grows.return_not_mem (h : Grows w w') (hindent : '\r' ∉ w.indent) (htext : '\r' ∉ w.text) :
    '\r' ∉ w'.text := by
  induction h with
  | refl w => exact htext
  | trans h _ ih ih' => exact ih' (h.indent_eq ▸ hindent) (ih hindent htext)
  | newline w =>
    rw [text_newline_eq, text_putIndent]
    split <;> simp [htext, hindent]
  | @part w t ht =>
    by_cases hnil : t = []
    · rwa [hnil]
    · rw [text_part_eq w hnil, text_putIndent]
      split <;> simp [htext, hindent, ht.2]
  | @indented w w' p hp _ ih =>
    refine ih ?_ htext
    rw [indent_increaseIndent, List.mem_append, not_or]
    exact ⟨hindent, hp.2⟩

/-! ## Operations -/

/-- The writer after some operations. -/
def run (w : Writer) (operations : List Operation) : Writer := operations.foldl after w

theorem run_cons (w : Writer) (operation : Operation) (operations : List Operation) :
    w.run (operation :: operations) = (w.after operation).run operations := rfl

def Operation.putsOn : Operation → Bool
  | .increaseIndent _ => true
  | _ => false

def Operation.takesOff : Operation → Bool
  | .decreaseIndent => true
  | _ => false

/-- Taking an indent off where there is none changes nothing. -/
theorem after_decreaseIndent (w : Writer) : w.after .decreaseIndent = w.dropIndent := by
  unfold after perform decreaseIndent
  cases h : w.indents with
  | nil =>
    rw [dropIndent, h, List.tail_nil, ← h, withIndents_self, h]
    rfl
  | cons p indents => rfl

/-- Nothing fails but taking off an indent where there is none. -/
theorem perform_eq_error_iff {fault : Fault} : w.perform operation = .error fault ↔
    operation = .decreaseIndent ∧ fault = .emptyIndentStack ∧ w.indents = [] := by
  cases operation with
  | decreaseIndent =>
    unfold perform decreaseIndent
    cases w.indents with
    | nil => simp [eq_comm]
    | cons p indents => simp
  | _ => simp [perform]

/-- An operation puts an indent on, takes one off if there is one, or writes. -/
theorem after_cases (w : Writer) (operation : Operation) :
    (∃ p, operation = .increaseIndent p ∧ w.after operation = w.increaseIndent p) ∨
    (operation = .decreaseIndent ∧ w.after operation = w.dropIndent) ∨
    (operation.putsOn = false ∧ operation.takesOff = false ∧ Grows w (w.after operation)) := by
  cases operation with
  | write t => exact .inr (.inr ⟨rfl, rfl, .write w t⟩)
  | writeLine t => exact .inr (.inr ⟨rfl, rfl, .writeLine w t⟩)
  | ensureNewLine => exact .inr (.inr ⟨rfl, rfl, .ensureNewLine w⟩)
  | ensureSkippedLine => exact .inr (.inr ⟨rfl, rfl, .ensureSkippedLine w⟩)
  | increaseIndent p => exact .inl ⟨p, rfl, rfl⟩
  | decreaseIndent => exact .inr (.inl ⟨rfl, after_decreaseIndent w⟩)

theorem Coherent.after (h : w.Coherent) (operation : Operation) : (w.after operation).Coherent := by
  obtain ⟨p, -, heq⟩ | ⟨-, heq⟩ | ⟨-, -, hgrows⟩ := after_cases w operation
  · rw [heq]
    exact h.reindent _
  · rw [heq]
    exact h.reindent _
  · exact h.grows hgrows

theorem Coherent.run (h : w.Coherent) (operations : List Operation) :
    (w.run operations).Coherent := by
  induction operations generalizing w with
  | nil => exact h
  | cons operation operations ih => exact ih (h.after operation)

theorem text_isPrefix_after (w : Writer) (operation : Operation) :
    w.text <+: (w.after operation).text := by
  obtain ⟨p, -, heq⟩ | ⟨-, heq⟩ | ⟨-, -, hgrows⟩ := after_cases w operation
  · rw [heq]
    exact List.prefix_rfl
  · rw [heq]
    exact List.prefix_rfl
  · exact hgrows.text_isPrefix

/-- The indents in force are from before a run or were put on in it. -/
theorem mem_indents_run {p : Text} (h : p ∈ (w.run operations).indents) :
    p ∈ w.indents ∨ .increaseIndent p ∈ operations := by
  induction operations generalizing w with
  | nil => exact .inl h
  | cons operation operations ih =>
    rcases ih h with hbefore | hlater
    · obtain ⟨q, rfl, heq⟩ | ⟨-, heq⟩ | ⟨-, -, hgrows⟩ := after_cases w operation
      · rw [heq] at hbefore
        rcases List.mem_cons.mp hbefore with rfl | hbefore
        · exact .inr (List.mem_cons_self ..)
        · exact .inl hbefore
      · rw [heq] at hbefore
        exact .inl (List.mem_of_mem_tail hbefore)
      · exact .inl (hgrows.indents_eq ▸ hbefore)
    · exact .inr (List.mem_cons_of_mem _ hlater)

theorem return_not_mem_run (hputs : ∀ p, .increaseIndent p ∈ operations → '\r' ∉ p)
    (hindents : ∀ p ∈ w.indents, '\r' ∉ p) (htext : '\r' ∉ w.text) :
    '\r' ∉ (w.run operations).text := by
  induction operations generalizing w with
  | nil => exact htext
  | cons operation operations ih =>
    rw [run_cons]
    have hlater : ∀ p, .increaseIndent p ∈ operations → '\r' ∉ p := fun p hp =>
      hputs p (List.mem_cons_of_mem _ hp)
    obtain ⟨p, rfl, heq⟩ | ⟨-, heq⟩ | ⟨-, -, hgrows⟩ := after_cases w operation
    · rw [heq]
      exact ih hlater (List.forall_mem_cons.mpr ⟨hputs p (List.mem_cons_self ..), hindents⟩) htext
    · rw [heq]
      exact ih hlater (fun p hp => hindents p (List.mem_of_mem_tail hp)) htext
    · refine ih hlater (hgrows.indents_eq ▸ hindents) (hgrows.return_not_mem ?_ htext)
      simpa [w.indent_eq] using hindents

/-! ## Indents in force -/

/-- Whether some start of a run takes off more indents than it puts on. -/
def uncovers (operations : List Operation) : Bool :=
  operations.inits.any fun start =>
    start.countP Operation.putsOn < start.countP Operation.takesOff

/-- The indents that are put on in a run and that nothing later in it takes off. -/
def pending : List Operation → List Text
  | [] => []
  | .increaseIndent p :: operations =>
    if uncovers operations then pending operations else p :: pending operations
  | _ :: operations => pending operations

/-- How many indents from before a run are taken off in it. -/
def excess : List Operation → Nat
  | [] => 0
  | .increaseIndent _ :: operations => excess operations - 1
  | .decreaseIndent :: operations => excess operations + 1
  | _ :: operations => excess operations

theorem excess_cons (hputs : operation.putsOn = false) (htakes : operation.takesOff = false) :
    excess (operation :: operations) = excess operations := by
  cases operation with
  | increaseIndent p => cases hputs
  | decreaseIndent => cases htakes
  | _ => rfl

theorem pending_cons (hputs : operation.putsOn = false) :
    pending (operation :: operations) = pending operations := by
  cases operation with
  | increaseIndent p => cases hputs
  | _ => rfl

/-- A start of a longer run is nothing, or goes on from the first operation. -/
theorem exists_prefix_cons_iff {P : List Operation → Prop} (hnil : ¬P []) :
    (∃ start, start <+: operation :: operations ∧ P start) ↔
      ∃ start, start <+: operations ∧ P (operation :: start) := by
  constructor
  · rintro ⟨start, hstart, h⟩
    rcases List.prefix_cons_iff.mp hstart with rfl | ⟨rest, rfl, hrest⟩
    · exact absurd h hnil
    · exact ⟨rest, hrest, h⟩
  · rintro ⟨start, hstart, h⟩
    exact ⟨operation :: start, List.prefix_cons_iff.mpr (.inr ⟨start, rfl, hstart⟩), h⟩

/-- What is taken off is told by counting in the starts of a run. -/
theorem lt_excess_iff : k < excess operations ↔ ∃ start, start <+: operations ∧
    start.countP Operation.putsOn + k < start.countP Operation.takesOff := by
  induction operations generalizing k with
  | nil =>
    refine iff_of_false (Nat.not_lt_zero k) ?_
    rintro ⟨start, hstart, hlt⟩
    rw [List.prefix_nil.mp hstart] at hlt
    exact absurd hlt (Nat.not_lt_zero _)
  | cons operation operations ih =>
    rw [exists_prefix_cons_iff (Nat.not_lt_zero _)]
    cases operation with
    | increaseIndent p =>
      have hstep : ∀ start : List Operation,
          (Operation.increaseIndent p :: start).countP Operation.putsOn + k <
            (Operation.increaseIndent p :: start).countP Operation.takesOff ↔
          start.countP Operation.putsOn + (k + 1) < start.countP Operation.takesOff := by
        intro start
        simp only [List.countP_cons, Operation.putsOn, Operation.takesOff, if_true,
          Bool.false_eq_true, if_false]
        omega
      simp only [hstep, ← ih, excess]
      omega
    | decreaseIndent =>
      have hstep : ∀ start : List Operation,
          (Operation.decreaseIndent :: start).countP Operation.putsOn + k <
            (Operation.decreaseIndent :: start).countP Operation.takesOff ↔
          start.countP Operation.putsOn + k < start.countP Operation.takesOff + 1 := by
        intro start
        simp [List.countP_cons, Operation.putsOn, Operation.takesOff]
      simp only [hstep, excess]
      cases k with
      | zero => exact iff_of_true (Nat.succ_pos _) ⟨[], List.nil_prefix, Nat.one_pos⟩
      | succ k => simpa only [Nat.add_lt_add_iff_right, ← Nat.add_assoc] using ih
    | write _ | writeLine _ | ensureNewLine | ensureSkippedLine => exact ih

theorem uncovers_iff : uncovers operations = true ↔ 0 < excess operations := by
  simp [uncovers, lt_excess_iff]

/-- A run leaves the indents that are pending in it in front of those from before that it does not
take off. -/
theorem indents_run (w : Writer) (operations : List Operation) :
    (w.run operations).indents =
      (pending operations).reverse ++ w.indents.drop (excess operations) := by
  induction operations generalizing w with
  | nil => rfl
  | cons operation operations ih =>
    rw [run_cons, ih]
    obtain ⟨p, rfl, heq⟩ | ⟨rfl, heq⟩ | ⟨hputs, htakes, hgrows⟩ := after_cases w operation
    · rw [heq, pending, excess, indents_increaseIndent]
      split
      · rename_i huncovers
        obtain ⟨n, hn⟩ := Nat.exists_eq_succ_of_ne_zero (uncovers_iff.mp huncovers).ne'
        rw [hn]
        rfl
      · rename_i hcovered
        have hzero : excess operations = 0 := by
          simpa using fun h => hcovered (uncovers_iff.mpr h)
        rw [hzero]
        simp
    · rw [heq, pending_cons rfl, excess, indents_dropIndent, List.drop_tail]
    · rw [hgrows.indents_eq, excess_cons hputs htakes, pending_cons hputs]

/-- After any operations a writer knows the last two characters of its text and whether it is at the
start of a line, and has the indents in force that were put on and not taken off. Operations only
add to the text, carriage returns come from indents alone, and an indent cannot be taken off if none
is in force. -/
theorem run_account (operations : List Operation) :
    let w := Writer.empty.run operations
    w.last? = w.text.getLast? ∧ w.secondLast? = w.text.dropLast.getLast? ∧
    (w.atLineStart = true ↔ w.text = [] ∨ w.text.getLast? = some '\n') ∧
    w.indent = (pending operations).flatten ∧
    (∀ operation, w.text <+: (w.after operation).text) ∧
    ((∀ p, .increaseIndent p ∈ operations → '\r' ∉ p) → '\r' ∉ w.text) ∧
    (∀ operation fault, w.perform operation = .error fault ↔
      operation = .decreaseIndent ∧ fault = .emptyIndentStack ∧ pending operations = []) ∧
    (∀ operation fault, w.perform operation = .error fault → w.after operation = w) := by
  have hcoherent := Coherent.empty.run operations
  have hindents : (empty.run operations).indents = (pending operations).reverse := by
    rw [indents_run]
    exact (congrArg (_ ++ ·) List.drop_nil).trans (List.append_nil _)
  refine ⟨hcoherent.remembers.last?_eq, hcoherent.secondLast?_eq, hcoherent.atLineStart_iff, ?_,
    text_isPrefix_after _, fun hputs => ?_, fun operation fault => ?_, fun operation fault h => ?_⟩
  · rw [indent_eq, hindents, List.reverse_reverse]
  · exact return_not_mem_run hputs (List.forall_mem_nil _) List.not_mem_nil
  · rw [perform_eq_error_iff, hindents, List.reverse_eq_nil_iff]
  · rw [after, h]

end ApiReference.Markdown.Writer
