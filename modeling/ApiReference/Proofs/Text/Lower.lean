import ApiReference.Proofs.Text.Split
import ApiReference.Text.Case

/-!
# Lower case between slashes

A slash is no letter, and the search for the end of a word stops at it.  So what stands
on one side of a slash does not change the lower case of the other (`lower_append_slash`),
and as no other character becomes a slash, the pieces between the slashes of a text are
lowered one by one (`splitAt_lower_join`).  The same is true of all other signs below the
digits: none comes up in lower case (`not_mem_lower`).
-/

namespace ApiReference.Text

variable {t : Text} {c : Char} {parts : List Text}

/-! ## The end of a word -/

theorem leadsCased_cons (c : Char) (t : Text) : leadsCased (c :: t) =
    if inRanges caseIgnorableRanges c then leadsCased t else inRanges casedRanges c := by
  unfold leadsCased
  rw [List.find?_cons]
  cases inRanges caseIgnorableRanges c <;> rfl

theorem slash_not_inRanges :
    inRanges caseIgnorableRanges '/' = false ∧ inRanges casedRanges '/' = false := by
  decide +kernel

/-- Nothing behind a slash is seen from in front of it. -/
theorem leadsCased_append_slash (s t : Text) : leadsCased (s ++ '/' :: t) = leadsCased s := by
  induction s with
  | nil =>
    rw [List.nil_append, leadsCased_cons, slash_not_inRanges.1, slash_not_inRanges.2]
    rfl
  | cons c s ih => rw [List.cons_append, leadsCased_cons, leadsCased_cons, ih]

/-- A slash is left as it is. -/
theorem lowerAfter_append_slash (before s t : Text) : lowerAfter before (s ++ '/' :: t) =
    lowerAfter before s ++ '/' :: lowerAfter ('/' :: (s.reverse ++ before)) t := by
  induction s generalizing before with
  | nil => rfl
  | cons c s ih =>
    rw [List.cons_append, lowerAfter, lowerAfter, ih, leadsCased_append_slash, List.append_assoc,
      List.reverse_cons, List.append_assoc, List.singleton_append]

/-- Only what stands behind the last slash matters. -/
theorem lowerAfter_of_slash (before before' t : Text) :
    lowerAfter (before ++ '/' :: before') t = lowerAfter before t := by
  induction t generalizing before with
  | nil => rfl
  | cons c t ih => rw [lowerAfter, lowerAfter, leadsCased_append_slash, ← List.cons_append, ih]

/-- The sides of a slash are lowered on their own. -/
theorem lower_append_slash (s t : Text) : lower (s ++ '/' :: t) = lower s ++ '/' :: lower t := by
  rw [lower, lowerAfter_append_slash]
  exact congrArg (_ ++ '/' :: ·) (lowerAfter_of_slash [] _ t)

/-! ## No new signs -/

/-- Shifts lead from one valid code to another, and never as far down as the digits. -/
theorem bounds_of_mem_lowerShifts : ∀ s ∈ lowerShifts, (48 : Int) ≤ s.first + s.offset ∧
    (s.last + s.offset < 0xD800 ∨
      (0xDFFF : Int) < s.first + s.offset ∧ s.last + s.offset < 0x110000) := by
  decide +kernel

theorem toNat_ofNat_of_isValidChar {n : Nat} (h : n.isValidChar) : (Char.ofNat n).toNat = n := by
  rw [show Char.ofNat n = Char.ofNatAux n h from dif_pos h]
  rfl

theorem le_toNat_apply_lowerShifts (h : 128 ≤ c.toNat) :
    48 ≤ (CaseShift.apply lowerShifts c).toNat := by
  unfold CaseShift.apply
  dsimp only
  split
  · rename_i s hs
    obtain ⟨hlow, hvalid⟩ := bounds_of_mem_lowerShifts s (List.mem_of_find?_eq_some hs)
    have hfound := List.find?_some hs
    simp only [Bool.and_eq_true, decide_eq_true_eq] at hfound
    have hchar : (c.toNat + s.offset).toNat.isValidChar := by
      rcases hvalid with hvalid | hvalid
      · exact .inl (by omega)
      · exact .inr ⟨by omega, by omega⟩
    rw [toNat_ofNat_of_isValidChar hchar]
    omega
  · omega

/-- A sign in front of the digits is in lower case only what it was before. -/
theorem eq_of_mem_lowerChar {sign : Char} (hsign : sign.toNat < 48) (h : sign ∈ lowerChar c) :
    c = sign := by
  have hascii : ∀ n < 128, (Char.ofNat n).toLower.toNat < 48 →
      Char.ofNat n = (Char.ofNat n).toLower := by
    decide
  unfold lowerChar at h
  split at h
  · rename_i hlt
    have hc := hascii c.toNat hlt
    rw [Char.ofNat_toNat] at hc
    rw [List.mem_singleton.mp h] at hsign ⊢
    exact hc hsign
  · rename_i hlt
    split at h
    · have hall : ['i', Char.ofNat 0x307].all (fun c => decide (48 ≤ c.toNat)) = true := by decide
      have hle := of_decide_eq_true (List.all_eq_true.mp hall sign h)
      omega
    · have hle := le_toNat_apply_lowerShifts (c := c) (by omega)
      rw [← List.mem_singleton.mp h] at hle
      omega

theorem not_mem_lowerAfter {sign : Char} (hsign : sign.toNat < 48) (h : sign ∉ t)
    (before : Text) : sign ∉ lowerAfter before t := by
  induction t generalizing before with
  | nil => exact List.not_mem_nil
  | cons c t ih =>
    rw [List.mem_cons, not_or] at h
    rw [lowerAfter, List.mem_append, not_or]
    refine ⟨?_, ih h.2 _⟩
    split
    · have hsigma : ∀ sigma : Char, 48 ≤ sigma.toNat → sign ∉ [sigma] := by
        intro sigma hle hmem
        rw [← List.mem_singleton.mp hmem] at hle
        omega
      split
      · exact hsigma 'ς' (by decide)
      · exact hsigma 'σ' (by decide)
    · exact fun hmem => h.1 (eq_of_mem_lowerChar hsign hmem).symm

/-- Lower case brings no slash, dot or other sign in front of the digits into a text. -/
theorem not_mem_lower {sign : Char} (hsign : sign.toNat < 48) (h : sign ∉ t) : sign ∉ lower t :=
  not_mem_lowerAfter hsign h []

theorem lower_ne_nil (h : t ≠ []) : lower t ≠ [] := by
  obtain ⟨c, t, rfl⟩ := List.exists_cons_of_ne_nil h
  rw [lower, lowerAfter]
  refine List.append_ne_nil_of_left_ne_nil ?_ _
  split
  · split <;> exact List.cons_ne_nil _ _
  · unfold lowerChar
    split
    · exact List.cons_ne_nil _ _
    · split <;> exact List.cons_ne_nil _ _

/-! ## Pieces -/

theorem lower_join (parts : List Text) :
    lower (join ['/'] parts) = join ['/'] (parts.map lower) := by
  induction parts with
  | nil => rfl
  | cons part parts ih =>
    by_cases hne : parts = []
    · rw [hne, List.map_singleton, join_singleton, join_singleton]
    · rw [List.map_cons, join_cons _ _ hne, join_cons _ _ (by simpa using hne), List.append_assoc,
        List.append_assoc, List.singleton_append, lower_append_slash, ih]
      rfl

/-- Pieces without slashes are found again in lower case. -/
theorem splitAt_lower_join (h : ∀ p ∈ parts, '/' ∉ p) (hne : parts ≠ []) :
    splitAt '/' (lower (join ['/'] parts)) = parts.map lower := by
  rw [lower_join, splitAt_join ?_ (by simpa using hne)]
  intro piece hpiece
  obtain ⟨part, hpart, rfl⟩ := List.mem_map.mp hpiece
  exact not_mem_lower (by decide) (h part hpart)

end ApiReference.Text
