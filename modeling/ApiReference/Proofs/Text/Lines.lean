import ApiReference.Proofs.Text.Split
import ApiReference.Text.Blank
import Mathlib.Data.List.DropRight

/-!
# Texts of one line

A text without line feeds and carriage returns stays on its line (`OneLine`).  Joined
with line feeds such texts are the lines that splitting finds again
(`splitAt_flatMap_lines`), and blanks that are collapsed leave only such texts.
-/

namespace ApiReference.Text

variable {s t piece : Text} {c : Char} {lines : List Text}

/-- A text without line feeds and carriage returns. -/
def OneLine (t : Text) : Prop := '\n' ∉ t ∧ '\r' ∉ t

namespace OneLine

instance decidable (t : Text) : Decidable (OneLine t) :=
  inferInstanceAs (Decidable ('\n' ∉ t ∧ '\r' ∉ t))

@[simp] theorem nil : OneLine [] := ⟨List.not_mem_nil, List.not_mem_nil⟩

theorem append_iff : OneLine (s ++ t) ↔ OneLine s ∧ OneLine t := by
  simp only [OneLine, List.mem_append, not_or]
  constructor
  · rintro ⟨⟨hs, ht⟩, hs', ht'⟩
    exact ⟨⟨hs, hs'⟩, ht, ht'⟩
  · rintro ⟨⟨hs, hs'⟩, ht, ht'⟩
    exact ⟨⟨hs, ht⟩, hs', ht'⟩

theorem append (hs : OneLine s) (ht : OneLine t) : OneLine (s ++ t) := append_iff.mpr ⟨hs, ht⟩

theorem of_subset (ht : OneLine t) (h : ∀ c ∈ s, c ∈ t) : OneLine s :=
  ⟨fun hs => ht.1 (h _ hs), fun hs => ht.2 (h _ hs)⟩

theorem of_cons (h : OneLine (c :: t)) : OneLine t := h.of_subset fun _ => List.mem_cons_of_mem _

theorem cons_iff : OneLine (c :: t) ↔ (c ≠ '\n' ∧ c ≠ '\r') ∧ OneLine t := by
  simp only [OneLine, List.mem_cons, not_or, ne_eq, eq_comm]
  constructor
  · rintro ⟨⟨hc, ht⟩, hc', ht'⟩
    exact ⟨⟨hc, hc'⟩, ht, ht'⟩
  · rintro ⟨⟨hc, hc'⟩, ht, ht'⟩
    exact ⟨⟨hc, ht⟩, hc', ht'⟩

/-- Writing every character of a line as a piece of a line gives a line. -/
theorem flatMap {f : Char → Text} (h : OneLine t)
    (hf : ∀ c, c ≠ '\n' → c ≠ '\r' → OneLine (f c)) : OneLine (t.flatMap f) := by
  induction t with
  | nil => exact nil
  | cons c t ih =>
    obtain ⟨⟨hn, hr⟩, ht⟩ := cons_iff.mp h
    rw [List.flatMap_cons]
    exact (hf c hn hr).append (ih ht)

end OneLine

/-! ## Line breaks -/

theorem unifyNewlines_cons (hc : c ≠ '\r') (t : Text) :
    unifyNewlines (c :: t) = c :: unifyNewlines t := by
  rw [unifyNewlines]
  · rintro rest hreturn -
    exact hc hreturn
  · exact hc

theorem unifyNewlines_of_not_mem (h : '\r' ∉ t) : unifyNewlines t = t := by
  fun_induction unifyNewlines t with
  | case1 => rfl
  | case2 t ih => exact absurd (List.mem_cons_self ..) h
  | case3 t _ ih => exact absurd (List.mem_cons_self ..) h
  | case4 c t _ _ ih => rw [ih fun hmem => h (List.mem_cons_of_mem _ hmem)]

theorem unifyNewlines_eq (h : OneLine t) : unifyNewlines t = t := unifyNewlines_of_not_mem h.2

theorem return_not_mem_unifyNewlines (t : Text) : '\r' ∉ unifyNewlines t := by
  fun_induction unifyNewlines t with
  | case1 => exact List.not_mem_nil
  | case2 t ih => simpa using ih
  | case3 t _ ih => simpa using ih
  | case4 c t _ hc ih =>
    rw [List.mem_cons, not_or]
    exact ⟨fun hreturn => hc hreturn.symm, ih⟩

/-- Line breaks are found in two texts apart as in both together, unless one is cut between them. -/
theorem unifyNewlines_append (h : ¬ (s.getLast? = some '\r' ∧ t.head? = some '\n')) :
    unifyNewlines (s ++ t) = unifyNewlines s ++ unifyNewlines t := by
  have hlater : ∀ {c : Char} {u : Text}, ¬ ((c :: u).getLast? = some '\r' ∧ t.head? = some '\n') →
      ¬ (u.getLast? = some '\r' ∧ t.head? = some '\n') := by
    rintro c u h ⟨hlast, hhead⟩
    exact h ⟨by rw [List.getLast?_cons, hlast]; rfl, hhead⟩
  fun_induction unifyNewlines s with
  | case1 => rfl
  | case2 u ih =>
    rw [List.cons_append, List.cons_append, unifyNewlines, ih (hlater (hlater h)), List.cons_append]
  | case3 u hpair ih =>
    have hpair' : ∀ rest, u ++ t = '\n' :: rest → False := by
      intro rest hrest
      cases u with
      | nil => exact h ⟨rfl, by rw [← List.nil_append t, hrest]; rfl⟩
      | cons d u =>
        obtain ⟨rfl, -⟩ := List.cons_eq_cons.mp hrest
        exact hpair u rfl
    rw [List.cons_append, unifyNewlines, ih (hlater h), List.cons_append]
    exact hpair'
  | case4 c u hpair hreturn ih =>
    rw [List.cons_append, unifyNewlines, ih (hlater h), List.cons_append]
    · rintro rest hc -
      exact hreturn hc
    · exact hreturn

/-- The pieces between the line breaks of a text, whichever these are, are lines. -/
theorem oneLine_of_mem_splitAt (h : piece ∈ splitAt '\n' (unifyNewlines t)) : OneLine piece :=
  ⟨not_mem_of_mem_splitAt h, fun hc => return_not_mem_unifyNewlines t (mem_of_mem_splitAt h hc)⟩

theorem splitAt_of_not_mem {separator : Char} (h : separator ∉ t) : splitAt separator t = [t] := by
  induction t with
  | nil => rfl
  | cons c t ih =>
    rw [List.mem_cons, not_or] at h
    rw [splitAt, if_neg (Ne.symm h.1), ih h.2]

/-- Lines that each end with a line feed are found again in front of what follows them. -/
theorem splitAt_flatMap_lines (h : ∀ l ∈ lines, '\n' ∉ l) (t : Text) :
    splitAt '\n' (lines.flatMap (· ++ ['\n']) ++ t) = lines ++ splitAt '\n' t := by
  induction lines with
  | nil => rfl
  | cons l lines ih =>
    obtain ⟨hl, hlines⟩ := List.forall_mem_cons.mp h
    rw [List.flatMap_cons, List.append_assoc, List.append_assoc, List.singleton_append,
      splitAt_append_cons, splitAt_of_not_mem hl, ih hlines]
    rfl

/-! ## Blanks -/

theorem isBlank_return : isBlank '\r' = true := rfl

/-- A space is the only blank in a collapsed text. -/
theorem eq_space_of_mem_collapse (h : c ∈ collapse t) (hc : isBlank c = true) : c = ' ' := by
  fun_induction collapse t with
  | case1 => exact absurd h List.not_mem_nil
  | case2 d _ => exact List.mem_singleton.mp h
  | case3 d e rest _ _ ih => exact ih h
  | case4 d e rest _ _ ih => exact (List.mem_cons.mp h).elim id ih
  | case5 d rest hd ih =>
    rcases List.mem_cons.mp h with rfl | h
    · exact absurd hc hd
    · exact ih h

theorem oneLine_collapse (t : Text) : OneLine (collapse t) := by
  constructor
  · intro h
    have hc := eq_space_of_mem_collapse h isBlank_newline
    exact absurd hc (by decide)
  · intro h
    have hc := eq_space_of_mem_collapse h isBlank_return
    exact absurd hc (by decide)

theorem mem_of_mem_trim (h : c ∈ trim t) : c ∈ t := by
  rw [trim, trimEnd, List.mem_reverse] at h
  have hc := (List.dropWhile_sublist isBlank).subset h
  exact (List.dropWhile_sublist isBlank).subset (List.mem_reverse.mp hc)

theorem OneLine.trim (h : OneLine t) : OneLine (trim t) := h.of_subset fun _ => mem_of_mem_trim

theorem isBlank_of_mem_takeWhile (h : c ∈ t.takeWhile isBlank) : isBlank c = true := by
  induction t with
  | nil => exact absurd h List.not_mem_nil
  | cons d t ih =>
    rw [List.takeWhile_cons] at h
    split at h
    · rcases List.mem_cons.mp h with rfl | h
      · assumption
      · exact ih h
    · exact absurd h List.not_mem_nil

/-- A text of which trimming leaves nothing is blank. -/
theorem isBlank_of_trim_eq_nil (h : trim t = []) : ∀ c ∈ t, isBlank c = true := by
  intro c hc
  rw [trim, trimEnd, List.reverse_eq_nil_iff, List.dropWhile_eq_nil_iff] at h
  rw [← List.takeWhile_append_dropWhile (p := isBlank) (l := t), List.mem_append] at hc
  rcases hc with hc | hc
  · exact isBlank_of_mem_takeWhile hc
  · exact h c (List.mem_reverse.mpr hc)

/-! ## Code -/

/-- Carriage returns stand directly in front of line feeds only. -/
def ReturnsPaired (t : Text) : Prop :=
  ∀ before after, t = before ++ '\r' :: after → after.head? = some '\n'

theorem splitLineFeeds_ne_nil (t : Text) : splitLineFeeds t ≠ [] := by
  fun_cases splitLineFeeds t with
  | _ => exact List.cons_ne_nil _ _

/-- A character that is no part of a line break goes to the first piece. -/
theorem splitLineFeeds_cons (hc : c ≠ '\n') (hr : c = '\r' → t.head? ≠ some '\n') :
    splitLineFeeds (c :: t) = (splitLineFeeds t).modifyHead (c :: ·) := by
  rw [splitLineFeeds]
  · cases hs : splitLineFeeds t with
    | nil => exact absurd hs (splitLineFeeds_ne_nil t)
    | cons piece pieces => rfl
  · rintro rest rfl rfl
    exact hr rfl rfl
  · exact hc

theorem splitLineFeeds_of_oneLine (h : OneLine t) : splitLineFeeds t = [t] := by
  induction t with
  | nil => rfl
  | cons c t ih =>
    obtain ⟨⟨hfeed, hreturn⟩, ht⟩ := OneLine.cons_iff.mp h
    rw [splitLineFeeds_cons hfeed fun hc => absurd hc hreturn, ih ht]
    rfl

theorem two_le_length_splitLineFeeds (h : '\n' ∈ t) : 2 ≤ (splitLineFeeds t).length := by
  have hpos (s : Text) : 1 ≤ (splitLineFeeds s).length :=
    List.length_pos_iff.mpr (splitLineFeeds_ne_nil s)
  fun_induction splitLineFeeds t with
  | case1 => exact absurd h List.not_mem_nil
  | case2 t ih => exact Nat.succ_le_succ (hpos t)
  | case3 t ih => exact Nat.succ_le_succ (hpos t)
  | case4 c t hpair hc first pieces hsplit ih =>
    have hmore := ih ((List.mem_cons.mp h).resolve_left (Ne.symm hc))
    rw [hsplit] at hmore
    exact hmore
  | case5 c t hpair hc hsplit ih => exact absurd hsplit (splitLineFeeds_ne_nil t)

namespace ReturnsPaired

theorem of_cons (h : ReturnsPaired (c :: t)) : ReturnsPaired t := fun before after ht =>
  h (c :: before) after (by rw [ht, List.cons_append])

theorem cons_iff :
    ReturnsPaired (c :: t) ↔ (c = '\r' → t.head? = some '\n') ∧ ReturnsPaired t := by
  constructor
  · intro h
    refine ⟨fun hc => h [] t (by rw [hc, List.nil_append]), h.of_cons⟩
  · rintro ⟨hc, ht⟩ before after h
    cases before with
    | nil =>
      obtain ⟨rfl, rfl⟩ := List.cons_eq_cons.mp h
      exact hc rfl
    | cons b before =>
      obtain ⟨rfl, rfl⟩ := List.cons_eq_cons.mp h
      exact ht before after rfl

theorem nil : ReturnsPaired [] := fun _ _ h => absurd h.symm (by simp)

instance decidable : (t : Text) → Decidable (ReturnsPaired t)
  | [] => isTrue nil
  | _ :: t =>
    have := decidable t
    decidable_of_iff _ cons_iff.symm

/-- The pieces between the line breaks of code are lines. -/
theorem oneLine_of_mem_splitLineFeeds (h : ReturnsPaired t) (hp : piece ∈ splitLineFeeds t) :
    OneLine piece := by
  fun_induction splitLineFeeds t generalizing piece with
  | case1 =>
    rw [List.mem_singleton.mp hp]
    exact .nil
  | case2 t ih =>
    rcases List.mem_cons.mp hp with rfl | hp
    · exact .nil
    · exact ih h.of_cons.of_cons hp
  | case3 t ih =>
    rcases List.mem_cons.mp hp with rfl | hp
    · exact .nil
    · exact ih h.of_cons hp
  | case4 c t hpair hfeed first pieces hsplit ih =>
    obtain ⟨hc, ht⟩ := cons_iff.mp h
    rw [hsplit] at ih
    rcases List.mem_cons.mp hp with rfl | hp
    · refine OneLine.cons_iff.mpr ⟨⟨hfeed, fun hreturn => ?_⟩, ih ht (List.mem_cons_self ..)⟩
      obtain ⟨rest, hrest⟩ := List.head?_eq_some_iff.mp (hc hreturn)
      exact hpair rest hreturn hrest
    · exact ih ht (List.mem_cons_of_mem _ hp)
  | case5 c t hpair hfeed hsplit ih => exact absurd hsplit (splitLineFeeds_ne_nil t)

end ReturnsPaired

end ApiReference.Text
