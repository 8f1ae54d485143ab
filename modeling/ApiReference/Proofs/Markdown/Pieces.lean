import ApiReference.Proofs.Markdown.Operations

/-!
# Texts written in pieces

What a writer makes of a text hangs on its own state only through the indent and whether a
line starts: the text is added with the indent in front of each line (`Wrote`), where a
line has its indent in front of its first character or, if it is empty, of its line feed.
So the account of two texts that are written one after the other is that of both together
(`Wrote.comp`), and only a line break that is cut in two makes a difference.
-/

namespace ApiReference.Markdown.Writer

open Text

variable {w w' w'' w₁ w₂ : Writer} {s t l : Text} {ls : List Text}

/-! ## Indented texts -/

/-- A text with an indent in front of each of its lines. The flag tells whether it starts a line,
and a last line that is empty has no indent. -/
def indented (p : Text) : Bool → Text → Text
  | _, [] => []
  | start, c :: t => (if start then p else []) ++ c :: indented p (c == '\n') t

/-- Whether what follows a text starts a line. -/
def startsLine : Bool → Text → Bool
  | start, [] => start
  | _, c :: t => startsLine (c == '\n') t

theorem indented_append (p : Text) (start : Bool) (s t : Text) :
    indented p start (s ++ t) = indented p start s ++ indented p (startsLine start s) t := by
  induction s generalizing start with
  | nil => rfl
  | cons c s ih => rw [List.cons_append, indented, indented, startsLine, ih, List.append_assoc,
      List.cons_append]

theorem startsLine_append (start : Bool) (s t : Text) :
    startsLine start (s ++ t) = startsLine (startsLine start s) t := by
  induction s generalizing start with
  | nil => rfl
  | cons c s ih => rw [List.cons_append, startsLine, startsLine, ih]

theorem startsLine_of_line (h : '\n' ∉ l) (hne : l ≠ []) (start : Bool) :
    startsLine start l = false := by
  induction l generalizing start with
  | nil => exact absurd rfl hne
  | cons c l ih =>
    rw [List.mem_cons, not_or] at h
    rw [startsLine, beq_eq_false_iff_ne.mpr (Ne.symm h.1)]
    by_cases hnil : l = []
    · rw [hnil]
      rfl
    · exact ih h.2 hnil false

theorem indented_of_begun (p : Text) (h : '\n' ∉ l) : indented p false l = l := by
  induction l with
  | nil => rfl
  | cons c l ih =>
    rw [List.mem_cons, not_or] at h
    rw [indented, if_neg (by simp), beq_eq_false_iff_ne.mpr (Ne.symm h.1), ih h.2]
    rfl

/-- A line that has characters has the indent in front of the first one. -/
theorem indented_of_line (p : Text) (h : '\n' ∉ l) (hne : l ≠ []) (start : Bool) :
    indented p start l = (if start then p else []) ++ l := by
  obtain ⟨c, l, rfl⟩ := List.exists_cons_of_ne_nil hne
  rw [List.mem_cons, not_or] at h
  rw [indented, beq_eq_false_iff_ne.mpr (Ne.symm h.1), indented_of_begun p h.2]

/-- A line that is ended has the indent in front, also if it is empty. -/
theorem indented_line_append (p : Text) (h : '\n' ∉ l) (start : Bool) (t : Text) :
    indented p start (l ++ '\n' :: t) =
      (if start then p else []) ++ l ++ '\n' :: indented p true t := by
  by_cases hne : l = []
  · rw [hne, List.nil_append, List.append_nil]
    rfl
  · rw [indented_append, indented_of_line p h hne, startsLine_of_line h hne]
    rfl

/-! ## Lines -/

/-- The lines of a text as they are written: with the indent in front, but for the first one where
the text goes on with a line, and for a last one that is empty. -/
def indentedLines (start : Bool) (p : Text) (ls : List Text) : List Text :=
  ls.mapIdx fun i l =>
    if i = 0 ∧ start = false ∨ i + 1 = ls.length ∧ l = [] then l else p ++ l

theorem indentedLines_singleton (start : Bool) (p l : Text) :
    indentedLines start p [l] = [if l = [] then [] else (if start then p else []) ++ l] := by
  by_cases hl : l = []
  · simp [indentedLines, hl]
  · cases start <;> simp [indentedLines, hl]

theorem indentedLines_cons (start : Bool) (p l : Text) (hne : ls ≠ []) :
    indentedLines start p (l :: ls) =
      ((if start then p else []) ++ l) :: indentedLines true p ls := by
  have hlength : ls.length ≠ 0 := by simpa using hne
  unfold indentedLines
  rw [List.mapIdx_cons]
  congr 1
  · cases start <;> simp [hne]
  · apply List.mapIdx_eq_mapIdx_iff.mpr
    intro i hi
    simp

/-- An indented text is that of its indented lines. -/
theorem join_indentedLines (p : Text) (h : ∀ l ∈ ls, '\n' ∉ l) (start : Bool) :
    join ['\n'] (indentedLines start p ls) = indented p start (join ['\n'] ls) := by
  induction ls generalizing start with
  | nil => rfl
  | cons l ls ih =>
    obtain ⟨hl, hls⟩ := List.forall_mem_cons.mp h
    by_cases hlast : ls = []
    · rw [hlast, indentedLines_singleton, join_singleton, join_singleton]
      split
      · rename_i hnil
        rw [hnil]
        rfl
      · rename_i hne
        rw [indented_of_line p hl hne]
    · have hmore : indentedLines true p ls ≠ [] := by simpa [indentedLines] using hlast
      rw [indentedLines_cons start p l hlast, join_cons _ _ hmore, join_cons _ _ hlast, ih hls,
        List.append_assoc l, List.singleton_append, indented_line_append p hl, List.append_assoc,
        List.append_assoc, List.singleton_append, List.append_assoc]

/-! ## Writing -/

/-- A text with line feeds was written. -/
structure Wrote (t : Text) (w w' : Writer) : Prop where
  text_eq : w'.text = w.text ++ indented w.indent w.atLineStart t
  atLineStart_eq : w'.atLineStart = startsLine w.atLineStart t
  indents_eq : w'.indents = w.indents

namespace Wrote

theorem nil (w : Writer) : Wrote [] w w := ⟨(List.append_nil _).symm, rfl, rfl⟩

/-- What is written one after the other is written together. -/
theorem comp (h : Wrote s w w') (h' : Wrote t w' w'') : Wrote (s ++ t) w w'' where
  text_eq := by
    have hindent : w'.indent = w.indent := indent_congr h.indents_eq
    rw [h'.text_eq, h.text_eq, hindent, h.atLineStart_eq, List.append_assoc, indented_append]
  atLineStart_eq := by rw [h'.atLineStart_eq, h.atLineStart_eq, startsLine_append]
  indents_eq := h'.indents_eq.trans h.indents_eq

theorem newline (w : Writer) : Wrote ['\n'] w w.newline where
  text_eq := by
    rw [text_newline_eq, text_putIndent, List.append_assoc]
    rfl
  atLineStart_eq := rfl
  indents_eq := indents_newline w

theorem part (h : '\n' ∉ l) (w : Writer) : Wrote l w (w.part l) := by
  by_cases hne : l = []
  · rw [hne]
    exact nil w
  · constructor
    · rw [text_part_eq w hne, text_putIndent, List.append_assoc, indented_of_line _ h hne]
    · rw [startsLine_of_line h hne, Writer.part, if_neg (by simpa using hne)]
    · exact indents_part w l

theorem parts (h : ∀ l ∈ ls, '\n' ∉ l) (w : Writer) :
    Wrote (join ['\n'] ls) w (Writer.parts ls w) := by
  induction ls generalizing w with
  | nil => exact nil w
  | cons l ls ih =>
    obtain ⟨hl, hls⟩ := List.forall_mem_cons.mp h
    cases ls with
    | nil =>
      rw [join_singleton]
      exact part hl w
    | cons l' ls =>
      rw [join_cons _ _ (List.cons_ne_nil l' ls)]
      exact ((part hl w).comp (newline _)).comp (ih hls _)

/-- A text is written with its line breaks as line feeds. -/
theorem write (t : Text) (w : Writer) : Wrote (unifyNewlines t) w (w.write t) := by
  have hparts : Wrote (join ['\n'] (splitAt '\n' (unifyNewlines t))) w (w.write t) :=
    parts (fun l hl => not_mem_of_mem_splitAt hl) w
  rwa [join_splitAt] at hparts

end Wrote

/-! ## States -/

/-- Two writers that differ in nothing but how the text so far is cut into chunks. -/
structure SameState (w w' : Writer) : Prop where
  text_eq : w.text = w'.text
  tail_eq : w.tail = w'.tail
  atLineStart_eq : w.atLineStart = w'.atLineStart
  indents_eq : w.indents = w'.indents

/-- What was written tells the state. -/
theorem Wrote.sameState (hw₁ : w₁.Remembers) (hw₂ : w₂.Remembers) (h₁ : Wrote t w w₁)
    (h₂ : Wrote t w w₂) : SameState w₁ w₂ := by
  have htext : w₁.text = w₂.text := h₁.text_eq.trans h₂.text_eq.symm
  constructor
  · exact htext
  · rw [hw₁, hw₂, htext]
  · exact h₁.atLineStart_eq.trans h₂.atLineStart_eq.symm
  · exact h₁.indents_eq.trans h₂.indents_eq.symm

/-- One more line feed makes an indented text longer. -/
theorem length_indented_lt (p : Text) (start : Bool) (s t : Text) :
    (indented p start (s ++ '\n' :: t)).length <
      (indented p start (s ++ '\n' :: '\n' :: t)).length := by
  have hfeed : ∀ u : Text, indented p start (s ++ '\n' :: u) =
      indented p start (s ++ ['\n']) ++ indented p true u := by
    intro u
    rw [List.append_cons s '\n' u, indented_append, startsLine_append]
    rfl
  have hmore : indented p true ('\n' :: t) = p ++ '\n' :: indented p true t := rfl
  rw [hfeed t, hfeed ('\n' :: t), hmore]
  simp only [List.length_append, List.length_cons]
  omega

/-- A line break that is cut in two is read as two. -/
theorem unifyNewlines_cut (s t : Text) :
    unifyNewlines (s ++ ['\r'] ++ '\n' :: t) = unifyNewlines s ++ '\n' :: unifyNewlines t ∧
      unifyNewlines (s ++ ['\r']) ++ unifyNewlines ('\n' :: t) =
        unifyNewlines s ++ '\n' :: '\n' :: unifyNewlines t := by
  have hreturn : ∀ u : Text, ¬ (s.getLast? = some '\r' ∧ ('\r' :: u).head? = some '\n') := by
    rintro u ⟨-, hhead⟩
    cases hhead
  constructor
  · rw [List.append_assoc, List.singleton_append, unifyNewlines_append (hreturn _)]
    rfl
  · rw [unifyNewlines_append (hreturn []), List.append_assoc]
    rfl

/-- After any operations, writing two texts one after the other leaves a writer as writing them
together does, unless a carriage return ends the first and a line feed starts the second. A text is
written line by line, whichever its line breaks are, and each line has the indent in front: but for
the first one if the writer was not at the start of a line, and for a last one that is empty. -/
theorem write_in_pieces (operations : List Operation) (a b m : Text) :
    let w := Writer.empty.run operations
    (SameState ((w.write a).write b) (w.write (a ++ b)) ↔
      ¬ (a.getLast? = some '\r' ∧ b.head? = some '\n')) ∧
    (w.write m).text = w.text ++
      join ['\n'] (indentedLines w.atLineStart w.indent (splitAt '\n' (unifyNewlines m))) := by
  intro w
  have hw : w.Remembers := (Coherent.empty.run operations).remembers
  have happart : Wrote (unifyNewlines a ++ unifyNewlines b) w ((w.write a).write b) :=
    (Wrote.write a w).comp (.write b _)
  have htogether : Wrote (unifyNewlines (a ++ b)) w (w.write (a ++ b)) := .write _ w
  refine ⟨⟨?_, fun huncut => ?_⟩, ?_⟩
  · rintro hsame ⟨hlast, hhead⟩
    obtain ⟨a, rfl⟩ := List.getLast?_eq_some_iff.mp hlast
    obtain ⟨b, rfl⟩ := List.head?_eq_some_iff.mp hhead
    obtain ⟨hone, htwo⟩ := unifyNewlines_cut a b
    have hlt := length_indented_lt w.indent w.atLineStart (unifyNewlines a) (unifyNewlines b)
    have heq := happart.text_eq.symm.trans (hsame.text_eq.trans htogether.text_eq)
    rw [hone, htwo] at heq
    rw [List.append_cancel_left heq] at hlt
    exact Nat.lt_irrefl _ hlt
  · rw [unifyNewlines_append huncut] at htogether
    exact happart.sameState ((hw.write a).write b) (hw.write _) htogether
  · rw [join_indentedLines _ (fun l hl => not_mem_of_mem_splitAt hl), join_splitAt]
    exact (Wrote.write m w).text_eq

end ApiReference.Markdown.Writer
