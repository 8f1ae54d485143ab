import ApiReference.Markdown.Emit
import ApiReference.Proofs.Text.Lines

/-!
# Open pipes

A pipe ends a table cell unless a backslash stands directly in front of it.
`openPipes` counts the pipes that do; what is counted in a piece of a text depends on
whether the piece follows a backslash.  A piece that stays on its line and has the
same number of open pipes wherever it stands (`Piped`) can be put together with
others, and escaping leaves a text without any.
-/

namespace ApiReference.Markdown

open Text

variable {s t : Text} {m n : Nat} {c : Char} {parts : List Text}

/-- The pipes in a piece of text that no backslash stands directly in front of; `escaped` tells that
one stands in front of the piece. -/
def openPipesFrom (escaped : Bool) : Text → Nat
  | [] => 0
  | c :: t => (if c = '|' ∧ escaped = false then 1 else 0) + openPipesFrom (c == '\\') t

/-- The pipes of a line that no backslash stands directly in front of. -/
def openPipes (line : Text) : Nat := openPipesFrom false line

/-- Whether what follows a piece of text follows a backslash. -/
def escapesNext (escaped : Bool) (t : Text) : Bool :=
  match t.getLast? with
  | none => escaped
  | some c => c == '\\'

theorem openPipesFrom_append (escaped : Bool) (s t : Text) : openPipesFrom escaped (s ++ t) =
    openPipesFrom escaped s + openPipesFrom (escapesNext escaped s) t := by
  induction s generalizing escaped with
  | nil => exact (Nat.zero_add _).symm
  | cons c s ih =>
    have hnext : escapesNext (c == '\\') s = escapesNext escaped (c :: s) := by
      cases hs : s.getLast? with
      | none => rw [List.getLast?_eq_none_iff.mp hs]; rfl
      | some d => rw [escapesNext, escapesNext, List.getLast?_cons, hs]; rfl
    rw [List.cons_append, openPipesFrom, openPipesFrom, ih, hnext, Nat.add_assoc]

/-- A piece of a line with a number of open pipes that does not depend on what is in front of it. -/
structure Piped (n : Nat) (t : Text) : Prop where
  oneLine : OneLine t
  openPipes_eq : ∀ escaped, openPipesFrom escaped t = n

namespace Piped

theorem nil : Piped 0 [] := ⟨.nil, fun _ => rfl⟩

theorem append (hs : Piped m s) (ht : Piped n t) : Piped (m + n) (s ++ t) :=
  ⟨hs.oneLine.append ht.oneLine, fun escaped => by
    rw [openPipesFrom_append, hs.openPipes_eq, ht.openPipes_eq]⟩

theorem append_closed (hs : Piped 0 s) (ht : Piped 0 t) : Piped 0 (s ++ t) := hs.append ht

/-- A line without pipes. -/
theorem of_not_mem (ht : OneLine t) (h : '|' ∉ t) : Piped 0 t := by
  refine ⟨ht, fun escaped => ?_⟩
  clear ht
  induction t generalizing escaped with
  | nil => rfl
  | cons c t ih =>
    rw [List.mem_cons, not_or] at h
    rw [openPipesFrom, if_neg (fun hc => h.1 hc.1.symm), Nat.zero_add, ih h.2]

/-- A mark in which no line break and no pipe occurs. -/
theorem mark (h : t.all (fun c => c != '\n' && c != '\r' && c != '|') = true) : Piped 0 t := by
  have hchars : ∀ c ∈ t, (c ≠ '\n' ∧ c ≠ '\r') ∧ c ≠ '|' := by
    intro c hc
    simpa [and_assoc] using List.all_eq_true.mp h c hc
  refine of_not_mem ⟨?_, ?_⟩ ?_
  · exact fun hc => (hchars _ hc).1.1 rfl
  · exact fun hc => (hchars _ hc).1.2 rfl
  · exact fun hc => (hchars _ hc).2 rfl

/-- Lines put together with a line between them. -/
theorem join (hs : Piped 0 s) (h : ∀ p ∈ parts, Piped 0 p) : Piped 0 (Text.join s parts) := by
  induction parts with
  | nil => exact nil
  | cons part parts ih =>
    obtain ⟨hpart, hparts⟩ := List.forall_mem_cons.mp h
    by_cases hne : parts = []
    · rw [hne, join_singleton]
      exact hpart
    · rw [join_cons _ _ hne]
      exact (hpart.append_closed hs).append_closed (ih hparts)

end Piped

/-! ## Escaped text -/

theorem openPipesFrom_escapeSpecial (escaped : Bool) (t : Text) :
    openPipesFrom escaped (t.flatMap escapeSpecial) = 0 := by
  induction t generalizing escaped with
  | nil => rfl
  | cons c t ih =>
    rw [List.flatMap_cons, openPipesFrom_append, ih, Nat.add_zero, escapeSpecial]
    split
    · simp [openPipesFrom]
    · rename_i hc
      have hpipe : c ≠ '|' := by
        rintro rfl
        exact hc rfl
      simp [openPipesFrom, hpipe]

/-- Backslashes in front of hyphens open and close no pipe. -/
theorem openPipesFrom_escapeHyphens (escaped inRun : Bool) (t : Text) :
    openPipesFrom escaped (escapeHyphens inRun t) = openPipesFrom escaped t := by
  induction t generalizing escaped inRun with
  | nil => rfl
  | cons c t ih =>
    rw [escapeHyphens]
    split
    · rename_i hc
      subst hc
      split
      · simp [openPipesFrom, ih]
      · simp [openPipesFrom, ih]
    · rw [openPipesFrom, openPipesFrom, ih]

theorem openPipesFrom_escapeEntity (escaped : Bool) (t : Text) :
    openPipesFrom escaped (t.flatMap escapeEntity) = openPipesFrom escaped t := by
  induction t generalizing escaped with
  | nil => rfl
  | cons c t ih =>
    rw [List.flatMap_cons, openPipesFrom_append, ih, openPipesFrom]
    have hentity : openPipesFrom escaped (escapeEntity c) =
        (if c = '|' ∧ escaped = false then 1 else 0) ∧
        escapesNext escaped (escapeEntity c) = (c == '\\') := by
      by_cases hamp : c = '&'
      · subst hamp
        cases escaped <;> decide
      · by_cases hlt : c = '<'
        · subst hlt
          cases escaped <;> decide
        · by_cases hgt : c = '>'
          · subst hgt
            cases escaped <;> decide
          · rw [escapeEntity, if_neg hamp, if_neg hlt, if_neg hgt]
            exact ⟨Nat.add_zero _, rfl⟩
    rw [hentity.1, hentity.2]

theorem oneLine_escapeHyphens (inRun : Bool) (h : OneLine t) : OneLine (escapeHyphens inRun t) := by
  induction t generalizing inRun with
  | nil => exact .nil
  | cons c t ih =>
    obtain ⟨hc, ht⟩ := OneLine.cons_iff.mp h
    have hback : '\\' ≠ '\n' ∧ '\\' ≠ '\r' := by decide
    have hhyphen : '-' ≠ '\n' ∧ '-' ≠ '\r' := by decide
    rw [escapeHyphens]
    split
    · split
      · exact OneLine.cons_iff.mpr ⟨hback, OneLine.cons_iff.mpr ⟨hhyphen, ih true ht⟩⟩
      · exact OneLine.cons_iff.mpr ⟨hhyphen, ih false ht⟩
    · exact OneLine.cons_iff.mpr ⟨hc, ih false ht⟩

/-- Escaped text has no open pipe. -/
theorem piped_escape (h : OneLine t) : Piped 0 (escape t) := by
  refine ⟨?_, fun escaped => ?_⟩
  · refine (oneLine_escapeHyphens false (h.flatMap ?_)).flatMap ?_
    · intro c hn hr
      unfold escapeSpecial
      split
      · exact OneLine.cons_iff.mpr ⟨by decide, OneLine.cons_iff.mpr ⟨⟨hn, hr⟩, .nil⟩⟩
      · exact OneLine.cons_iff.mpr ⟨⟨hn, hr⟩, .nil⟩
    · intro c hn hr
      unfold escapeEntity
      split
      · exact ⟨by decide, by decide⟩
      · split
        · exact ⟨by decide, by decide⟩
        · split
          · exact ⟨by decide, by decide⟩
          · exact OneLine.cons_iff.mpr ⟨⟨hn, hr⟩, .nil⟩
  · rw [escape, openPipesFrom_escapeEntity, openPipesFrom_escapeHyphens,
      openPipesFrom_escapeSpecial]

/-! ## Code -/

theorem openPipesFrom_escapePipe (escaped : Bool) (t : Text) :
    openPipesFrom escaped (t.flatMap escapePipe) = 0 := by
  induction t generalizing escaped with
  | nil => rfl
  | cons c t ih =>
    rw [List.flatMap_cons, openPipesFrom_append, ih, Nat.add_zero, escapePipe]
    split
    · simp [openPipesFrom]
    · rename_i hc
      simp [openPipesFrom, hc]

theorem head?_flatMap_escapePipe (h : t.head? ≠ some '\n') :
    (t.flatMap escapePipe).head? ≠ some '\n' := by
  cases t with
  | nil => exact h
  | cons c t =>
    rw [List.flatMap_cons, escapePipe]
    split
    · simp
    · simpa using h

/-- The lines of escaped code are the escaped lines of the code. -/
theorem splitLineFeeds_flatMap_escapePipe (t : Text) :
    splitLineFeeds (t.flatMap escapePipe) = (splitLineFeeds t).map (·.flatMap escapePipe) := by
  fun_induction splitLineFeeds t with
  | case1 => rfl
  | case2 t ih =>
    rw [List.map_cons, ← ih]
    rfl
  | case3 t ih =>
    rw [List.map_cons, ← ih]
    rfl
  | case4 c t hpair hfeed first pieces hsplit ih =>
    have hhead : c = '\r' → t.head? ≠ some '\n' := by
      intro hc hhead
      obtain ⟨rest, rfl⟩ := List.head?_eq_some_iff.mp hhead
      exact hpair rest hc rfl
    rw [hsplit] at ih
    rw [List.flatMap_cons, escapePipe]
    split
    · rename_i hc
      subst hc
      rw [List.cons_append, List.singleton_append,
        splitLineFeeds_cons (by decide) (fun h => absurd h (by decide)),
        splitLineFeeds_cons (by decide) (fun h => absurd h (by decide)), ih]
      rfl
    · rename_i hc
      rw [List.singleton_append,
        splitLineFeeds_cons hfeed fun hr => head?_flatMap_escapePipe (hhead hr), ih]
      simp [escapePipe, hc]
  | case5 c t hpair hfeed hsplit ih => exact absurd hsplit (splitLineFeeds_ne_nil t)

/-- The lines of escaped code have no open pipe. -/
theorem piped_of_mem_splitLineFeeds (h : ReturnsPaired t) :
    ∀ p ∈ splitLineFeeds (t.flatMap escapePipe), Piped 0 p := by
  intro p hp
  rw [splitLineFeeds_flatMap_escapePipe] at hp
  obtain ⟨line, hline, rfl⟩ := List.mem_map.mp hp
  refine ⟨(h.oneLine_of_mem_splitLineFeeds hline).flatMap fun c hn hr => ?_,
    fun escaped => openPipesFrom_escapePipe escaped line⟩
  unfold escapePipe
  split
  · exact ⟨by decide, by decide⟩
  · exact OneLine.cons_iff.mpr ⟨⟨hn, hr⟩, .nil⟩

theorem trimNewlines_eq_rdropWhile (code : Text) :
    Emission.trimNewlines code = code.rdropWhile Emission.isNewline := rfl

/-- Without the line breaks at its end, code does not end with a carriage return. -/
theorem returnsPaired_trimNewlines (h : ReturnsPaired t) :
    ReturnsPaired (Emission.trimNewlines t) := by
  rw [trimNewlines_eq_rdropWhile]
  intro before after heq
  obtain ⟨rest, hrest⟩ := List.rdropWhile_prefix Emission.isNewline t
  have hafter := h before (after ++ rest) (by rw [← hrest, heq]; simp)
  cases after with
  | nil =>
    have hne : t.rdropWhile Emission.isNewline ≠ [] := by
      rw [heq]
      simp
    have hlast := List.rdropWhile_last_not Emission.isNewline t hne
    simp only [heq, List.getLast_concat] at hlast
    exact absurd rfl hlast
  | cons c after => exact hafter

end ApiReference.Markdown
