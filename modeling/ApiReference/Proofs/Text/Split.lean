import ApiReference.Text.Basic

/-!
# Splitting, joining and cutting texts

`splitAt` is the splitting of lists, so that joining undoes it, and it undoes
joining for pieces without the separator.  `cut` parts a text at the first
separator only.  What a text includes stands in it as one piece.
-/

namespace ApiReference.Text

variable {separator c : Char} {s t piece : Text} {parts : List Text}

theorem splitAt_eq_splitOn (separator : Char) (t : Text) :
    splitAt separator t = t.splitOn separator := by
  induction t with
  | nil => rfl
  | cons c t ih =>
    rw [List.splitOn_cons_eq_if_modifyHead, ← ih, splitAt]
    by_cases hc : c = separator
    · simp [hc]
    · rw [if_neg hc, if_neg (by simpa using hc)]
      cases hs : splitAt separator t with
      | nil => exact absurd hs (splitAt_ne_nil separator t)
      | cons piece pieces => rfl

/-- Joining undoes splitting. -/
theorem join_splitAt (separator : Char) (t : Text) :
    join [separator] (splitAt separator t) = t := by
  rw [splitAt_eq_splitOn, join, List.intercalate_splitOn]

/-- Splitting undoes joining where the separator does not occur. -/
theorem splitAt_join (h : ∀ p ∈ parts, separator ∉ p) (hne : parts ≠ []) :
    splitAt separator (join [separator] parts) = parts := by
  rw [splitAt_eq_splitOn, join, List.splitOn_intercalate separator h hne]

theorem splitAt_append_cons (separator : Char) (s t : Text) :
    splitAt separator (s ++ separator :: t) = splitAt separator s ++ splitAt separator t := by
  simp only [splitAt_eq_splitOn, List.splitOn_append_cons_self]

/-- What has no separator goes to the first piece. -/
theorem splitAt_append_of_not_mem (h : separator ∉ s) (t : Text) :
    splitAt separator (s ++ t) = (splitAt separator t).modifyHead (s ++ ·) := by
  obtain ⟨piece, pieces, hsplit⟩ := List.exists_cons_of_ne_nil (splitAt_ne_nil separator t)
  induction s with
  | nil =>
    rw [List.nil_append, hsplit]
    rfl
  | cons c s ih =>
    rw [List.mem_cons, not_or] at h
    rw [List.cons_append, splitAt, if_neg (Ne.symm h.1), ih h.2, hsplit]
    rfl

theorem not_mem_of_mem_splitAt (h : piece ∈ splitAt separator t) : separator ∉ piece := by
  induction t generalizing piece with
  | nil =>
    rw [splitAt, List.mem_singleton] at h
    simp [h]
  | cons c t ih =>
    by_cases hc : c = separator
    · rw [splitAt, if_pos hc] at h
      rcases List.mem_cons.mp h with rfl | h
      · exact List.not_mem_nil
      · exact ih h
    · cases hs : splitAt separator t with
      | nil => exact absurd hs (splitAt_ne_nil separator t)
      | cons first pieces =>
        rw [splitAt, if_neg hc, hs] at h
        rcases List.mem_cons.mp h with rfl | h
        · rw [List.mem_cons, not_or]
          exact ⟨Ne.symm hc, ih (hs ▸ List.mem_cons_self ..)⟩
        · exact ih (hs ▸ List.mem_cons_of_mem _ h)

/-- A piece has no characters but those of the text. -/
theorem mem_of_mem_splitAt (h : piece ∈ splitAt separator t) (hc : c ∈ piece) : c ∈ t := by
  induction t generalizing piece with
  | nil => rwa [List.mem_singleton.mp h] at hc
  | cons d t ih =>
    rw [splitAt] at h
    split at h
    · rcases List.mem_cons.mp h with rfl | h
      · exact absurd hc List.not_mem_nil
      · exact List.mem_cons_of_mem _ (ih h hc)
    · split at h
      · rename_i first pieces hsplit
        rcases List.mem_cons.mp h with rfl | h
        · rcases List.mem_cons.mp hc with rfl | hc
          · exact List.mem_cons_self ..
          · exact List.mem_cons_of_mem _ (ih (hsplit ▸ List.mem_cons_self ..) hc)
        · exact List.mem_cons_of_mem _ (ih (hsplit ▸ List.mem_cons_of_mem _ h) hc)
      · rename_i hsplit
        exact absurd hsplit (splitAt_ne_nil separator t)

@[simp] theorem join_nil (s : Text) : join s [] = [] := rfl

@[simp] theorem join_singleton (s t : Text) : join s [t] = t := List.intercalate_singleton

theorem join_cons (s t : Text) (h : parts ≠ []) : join s (t :: parts) = t ++ s ++ join s parts := by
  rw [join, List.intercalate_cons_of_ne_nil h]
  rfl

theorem join_append_head (s t t' : Text) (parts : List Text) :
    join s ((t ++ t') :: parts) = t ++ join s (t' :: parts) := by
  cases parts with
  | nil => rw [join_singleton, join_singleton]
  | cons part parts =>
    rw [join_cons _ _ (List.cons_ne_nil part parts), join_cons _ _ (List.cons_ne_nil part parts)]
    simp only [List.append_assoc]

theorem join_append (s : Text) {parts' : List Text} (h : parts ≠ []) (h' : parts' ≠ []) :
    join s (parts ++ parts') = join s parts ++ s ++ join s parts' := by
  induction parts with
  | nil => exact absurd rfl h
  | cons part parts ih =>
    by_cases hne : parts = []
    · rw [hne, List.singleton_append, join_cons s part h', join_singleton]
    · rw [List.cons_append, join_cons s part (by simp [hne]), ih hne, join_cons s part hne]
      simp only [List.append_assoc]

theorem join_append_singleton (s t : Text) (h : parts ≠ []) :
    join s (parts ++ [t]) = join s parts ++ s ++ t := by
  rw [join_append s h (List.cons_ne_nil t []), join_singleton]

/-- A joined text has the characters of its parts. -/
theorem mem_join (s : Text) (h : piece ∈ parts) (hc : c ∈ piece) : c ∈ join s parts := by
  induction parts with
  | nil => exact absurd h List.not_mem_nil
  | cons part parts ih =>
    by_cases hne : parts = []
    · rw [hne, List.mem_singleton] at h
      rwa [hne, join_singleton, ← h]
    · rw [join_cons s part hne, List.mem_append, List.mem_append]
      rcases List.mem_cons.mp h with rfl | h
      · exact .inl (.inl hc)
      · exact .inr (ih h)

/-- A joined text has no characters but those of its parts and of the separator. -/
theorem not_mem_join (hc : c ≠ separator) (h : ∀ p ∈ parts, c ∉ p) :
    c ∉ join [separator] parts := by
  induction parts with
  | nil => exact List.not_mem_nil
  | cons part parts ih =>
    obtain ⟨hpart, hparts⟩ := List.forall_mem_cons.mp h
    by_cases hne : parts = []
    · simpa [hne] using hpart
    · rw [join_cons _ _ hne]
      simp [hpart, hc, ih hparts]

/-! ## Cutting -/

theorem cut_of_not_mem (h : separator ∉ t) : cut separator t = (t, none) := by
  induction t with
  | nil => rfl
  | cons c t ih =>
    rw [List.mem_cons, not_or] at h
    rw [cut, if_neg (Ne.symm h.1), ih h.2]

/-- The first separator ends the first part, whatever follows it. -/
theorem cut_append_cons (h : separator ∉ s) :
    cut separator (s ++ separator :: t) = (s, some t) := by
  induction s with
  | nil => simp [cut]
  | cons c s ih =>
    rw [List.mem_cons, not_or] at h
    rw [List.cons_append, cut, if_neg (Ne.symm h.1), ih h.2]

/-- The parts of a text that is cut are on both sides of a separator. -/
theorem eq_append_of_cut (h : (cut separator s).2 = some t) :
    s = (cut separator s).1 ++ separator :: t := by
  induction s with
  | nil => cases h
  | cons c s ih =>
    rw [cut] at h ⊢
    split at h
    · rename_i hc
      obtain rfl := Option.some.inj h
      rw [if_pos hc, hc]
      rfl
    · rename_i hc
      rw [if_neg hc]
      exact congrArg (c :: ·) (ih h)

/-! ## Pieces inside a text -/

theorem includes_eq_true_iff : includes piece t = true ↔ piece <:+: t := by
  induction t with
  | nil => rw [includes, List.isEmpty_iff, List.infix_nil]
  | cons c t ih =>
    rw [includes, Bool.or_eq_true, List.isPrefixOf_iff_prefix, ih, List.infix_cons_iff]

theorem includes_eq_false_iff : includes piece t = false ↔ ¬ piece <:+: t := by
  rw [← includes_eq_true_iff, Bool.not_eq_true]

end ApiReference.Text
