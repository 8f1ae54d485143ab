import ApiReference.Proofs.Text.Trim

/-!
# Portions of texts

A portion of a text ends where no word of the text goes on, so that the words in it
are words of the text.  Trimming and taking lines give portions, since blanks and line
breaks are no part of words.
-/

namespace ApiReference.Text

variable {s t u before after line : Text} {c : Char}

/-- The text goes on with no character of a word. -/
def WordEnd (t : Text) : Prop := ∀ c ∈ t.head?, isWord c = false

theorem wordEnd_nil : WordEnd [] := by
  intro c h
  cases h

theorem wordEnd_cons : WordEnd (c :: t) ↔ isWord c = false := by
  constructor
  · intro h
    exact h c rfl
  · rintro h _ ⟨⟩
    exact h

theorem isWord_of_isBlank (h : isBlank c = true) : isWord c = false := by
  by_contra hword
  rw [isBlank_eq_false_of_isWord (Bool.not_eq_false _ |>.mp hword)] at h
  cases h

theorem wordEnd_of_isBlank (h : ∀ c ∈ t, isBlank c = true) : WordEnd t := fun c hc =>
  isWord_of_isBlank (h c (List.mem_of_mem_head? hc))

theorem WordEnd.append (hs : WordEnd s) (ht : WordEnd t) : WordEnd (s ++ t) := by
  cases s with
  | nil => exact ht
  | cons c s => exact wordEnd_cons.mpr (wordEnd_cons.mp hs)

/-- A part of a text that ends where no word goes on. -/
def Portion (s t : Text) : Prop := ∃ before after, t = before ++ s ++ after ∧ WordEnd after

namespace Portion

theorem of_suffix (h : s <:+ t) : Portion s t := by
  obtain ⟨before, rfl⟩ := h
  exact ⟨before, [], (List.append_nil _).symm, wordEnd_nil⟩

theorem refl (t : Text) : Portion t t := of_suffix List.suffix_rfl

theorem of_append (h : WordEnd after) : Portion s (s ++ after) := ⟨[], after, rfl, h⟩

theorem trans (hs : Portion s t) (ht : Portion t u) : Portion s u := by
  obtain ⟨before, after, rfl, hafter⟩ := hs
  obtain ⟨before', after', rfl, hafter'⟩ := ht
  exact ⟨before' ++ before, after ++ after', by simp only [List.append_assoc],
    hafter.append hafter'⟩

theorem cons (c : Char) (h : Portion s t) : Portion s (c :: t) :=
  h.trans (of_suffix (List.suffix_cons c t))

/-! ## Trimming -/

theorem trimStart (t : Text) : Portion (trimStart t) t := of_suffix (List.dropWhile_suffix isBlank)

theorem trimEnd (t : Text) : Portion (trimEnd t) t := by
  have hparts : Text.trimEnd t ++ (t.reverse.takeWhile isBlank).reverse = t := by
    rw [Text.trimEnd, ← List.reverse_append, List.takeWhile_append_dropWhile, List.reverse_reverse]
  have hblank : ∀ c ∈ (t.reverse.takeWhile isBlank).reverse, isBlank c = true := fun c hc =>
    isBlank_of_mem_takeWhile (List.mem_reverse.mp hc)
  have hportion := of_append (s := Text.trimEnd t) (wordEnd_of_isBlank hblank)
  rwa [hparts] at hportion

theorem trim (t : Text) : Portion (trim t) t := (trimEnd _).trans (trimStart t)

theorem of_after? {start rest : Text} (h : after? start t = some rest) : Portion rest t := by
  rw [after?_eq_some.mp h]
  exact of_suffix (List.suffix_append start rest)

end Portion

/-! ## Lines -/

theorem eq_nil_of_lines (h : lines t = []) : t = [] := by
  fun_induction lines t with
  | case1 => rfl
  | _ => cases h

/-- The first line ends where no word goes on. -/
theorem exists_append_of_lines {rest : List Text} (h : lines t = line :: rest) :
    ∃ after, t = line ++ after ∧ WordEnd after := by
  fun_induction lines t generalizing line rest with
  | case1 => cases h
  | case2 t ih =>
    obtain ⟨rfl, -⟩ := List.cons_eq_cons.mp h
    exact ⟨_, rfl, wordEnd_cons.mpr (isWord_of_isBlank isBlank_return)⟩
  | case3 c t _ hbreak ih =>
    obtain ⟨rfl, -⟩ := List.cons_eq_cons.mp h
    exact ⟨_, rfl, wordEnd_cons.mpr (isWord_of_isBlank (isBlank_of_isLineBreak hbreak))⟩
  | case4 c t _ hbreak first others hlines ih =>
    obtain ⟨rfl, -⟩ := List.cons_eq_cons.mp h
    obtain ⟨after, hafter, hend⟩ := ih hlines
    exact ⟨after, by rw [hafter, List.cons_append], hend⟩
  | case5 c t _ hbreak hlines ih =>
    obtain ⟨rfl, -⟩ := List.cons_eq_cons.mp h
    exact ⟨[], by rw [eq_nil_of_lines hlines, List.append_nil], wordEnd_nil⟩

/-- The lines of a text are portions of it. -/
theorem portion_of_mem_lines (h : line ∈ lines t) : Portion line t := by
  fun_induction lines t with
  | case1 => cases h
  | case2 t ih =>
    rcases List.mem_cons.mp h with rfl | h
    · exact .of_append (s := []) (wordEnd_cons.mpr (isWord_of_isBlank isBlank_return))
    · exact ((ih h).cons _).cons _
  | case3 c t _ hbreak ih =>
    rcases List.mem_cons.mp h with rfl | h
    · exact .of_append (s := [])
        (wordEnd_cons.mpr (isWord_of_isBlank (isBlank_of_isLineBreak hbreak)))
    · exact (ih h).cons _
  | case4 c t _ hbreak first others hlines ih =>
    rcases List.mem_cons.mp h with rfl | h
    · obtain ⟨after, rfl, hend⟩ := exists_append_of_lines hlines
      exact .of_append hend
    · exact (ih (hlines ▸ List.mem_cons_of_mem _ h)).cons _
  | case5 c t _ hbreak hlines ih =>
    rw [List.mem_singleton.mp h, eq_nil_of_lines hlines]
    exact .refl [c]

end ApiReference.Text
