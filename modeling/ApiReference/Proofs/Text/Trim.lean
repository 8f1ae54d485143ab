import ApiReference.Proofs.Text.Lines
import ApiReference.Text.Word

/-!
# Trimmed texts

Trimming leaves a text alone when it neither starts nor ends with a blank
(`trim_eq_self_iff`).  A text without line breaks is one of the lines that a text is
read into, and word characters are no blanks.
-/

namespace ApiReference.Text

variable {s t : Text} {c : Char} {pieces : List Text}

/-! ## Blanks at the ends -/

theorem trimStart_eq_self_iff : trimStart t = t ↔ ∀ c ∈ t.head?, isBlank c = false := by
  rw [trimStart, List.dropWhile_eq_self_iff]
  cases t with
  | nil => simp
  | cons c t => simp

theorem trimEnd_eq_self_iff : trimEnd t = t ↔ ∀ c ∈ t.getLast?, isBlank c = false := by
  rw [← List.head?_reverse, ← trimStart_eq_self_iff, trimEnd, List.reverse_eq_iff]
  rfl

theorem trimStart_cons (hc : isBlank c = false) (t : Text) : trimStart (c :: t) = c :: t :=
  List.dropWhile_cons_of_neg (by simp [hc])

theorem trimEnd_trimEnd (t : Text) : trimEnd (trimEnd t) = trimEnd t :=
  List.rdropWhile_idempotent isBlank t

/-- Trimming leaves alone what has no blanks at its ends. -/
theorem trim_eq_self_iff : trim t = t ↔ trimStart t = t ∧ trimEnd t = t := by
  constructor
  · intro h
    have hstart : trimStart t = t := by
      refine (List.dropWhile_sublist isBlank).antisymm ?_
      have hsub := (List.rdropWhile_prefix isBlank (l := trimStart t)).sublist
      rwa [show List.rdropWhile isBlank (trimStart t) = t from h] at hsub
    rw [trim, hstart] at h
    exact ⟨hstart, h⟩
  · rintro ⟨hstart, hend⟩
    rw [trim, hstart, hend]

/-- What is left of the end of a list keeps what is in front of it. -/
theorem rdropWhile_append {α : Type} {p : α → Bool} {bs : List α} (as : List α)
    (hbs : bs.rdropWhile p ≠ []) : (as ++ bs).rdropWhile p = as ++ bs.rdropWhile p := by
  rw [List.rdropWhile, ne_eq, List.reverse_eq_nil_iff, ← List.isEmpty_iff] at hbs
  rw [List.rdropWhile, List.reverse_append, List.dropWhile_append, if_neg hbs, List.reverse_append,
    List.reverse_reverse]
  rfl

theorem trimEnd_append (s : Text) (ht : trimEnd t ≠ []) : trimEnd (s ++ t) = s ++ trimEnd t :=
  rdropWhile_append s ht

theorem trimEnd_append_blank (s : Text) (ht : trimEnd t = []) : trimEnd (s ++ t) = trimEnd s := by
  rw [trimEnd, List.reverse_eq_nil_iff, ← List.isEmpty_iff] at ht
  rw [trimEnd, List.reverse_append, List.dropWhile_append, if_pos ht]
  rfl

theorem trimEnd_cons (hc : isBlank c = false) (t : Text) : trimEnd (c :: t) = c :: trimEnd t := by
  have hone : trimEnd [c] = [c] := trimEnd_eq_self_iff.mpr fun d hd => by
    obtain rfl : c = d := by simpa using hd
    exact hc
  by_cases ht : trimEnd t = []
  · rw [ht]
    exact (trimEnd_append_blank [c] ht).trans hone
  · exact trimEnd_append [c] ht

/-- Blanks in front of a text are trimmed with its own. -/
theorem trim_append_blank (h : ∀ c ∈ s, isBlank c = true) (t : Text) : trim (s ++ t) = trim t := by
  rw [trim, trimStart, List.dropWhile_append_of_pos h]
  rfl

/-- Trimming first at the end and then at the start is trimming as well. -/
theorem trimStart_trimEnd (t : Text) : trimStart (trimEnd t) = trim t := by
  induction t with
  | nil => rfl
  | cons c t ih =>
    cases hc : isBlank c with
    | false => rw [trimEnd_cons hc, trimStart_cons hc, trim, trimStart_cons hc, trimEnd_cons hc]
    | true =>
      have hblank : ∀ d ∈ [c], isBlank d = true := fun d hd => List.mem_singleton.mp hd ▸ hc
      have htrim : trim (c :: t) = trim t := trim_append_blank hblank t
      rw [htrim, ← ih]
      by_cases ht : trimEnd t = []
      · have hone : trimEnd [c] = [] := List.rdropWhile_eq_nil_iff.mpr hblank
        rw [ht, show trimEnd (c :: t) = trimEnd [c] from trimEnd_append_blank [c] ht, hone]
      · rw [show trimEnd (c :: t) = c :: trimEnd t from trimEnd_append [c] ht]
        exact List.dropWhile_cons_of_pos hc

theorem trim_trimEnd (t : Text) : trim (trimEnd t) = trim t := by
  rw [trim, trimStart_trimEnd, trim, trimEnd_trimEnd]

/-- Only blanks are trimmed. -/
theorem mem_trimStart (hc : isBlank c = false) (h : c ∈ t) : c ∈ trimStart t := by
  rw [← List.takeWhile_append_dropWhile (p := isBlank) (l := t), List.mem_append] at h
  rcases h with h | h
  · rw [isBlank_of_mem_takeWhile h] at hc
    cases hc
  · exact h

theorem mem_trim (hc : isBlank c = false) (h : c ∈ t) : c ∈ trim t :=
  List.mem_reverse.mpr (mem_trimStart hc (List.mem_reverse.mpr (mem_trimStart hc h)))

/-! ## Lines -/

/-- A text without anything that ends a line. -/
def Unbroken (t : Text) : Prop := ∀ c ∈ t, isLineBreak c = false

namespace Unbroken

instance decidable (t : Text) : Decidable (Unbroken t) :=
  decidable_of_iff (t.all fun c => !isLineBreak c) (by simp [Unbroken])

theorem nil : Unbroken [] := fun _ h => absurd h List.not_mem_nil

theorem append (hs : Unbroken s) (ht : Unbroken t) : Unbroken (s ++ t) := fun c hc =>
  (List.mem_append.mp hc).elim (hs c) (ht c)

theorem of_not_isBlank (h : ∀ c ∈ t, isBlank c = false) : Unbroken t := fun c hc => by
  by_contra hbreak
  rw [Bool.not_eq_false] at hbreak
  exact absurd (isBlank_of_isLineBreak hbreak) (by simp [h c hc])

end Unbroken

theorem lines_cons {line : Text} {rest : List Text} (hc : isLineBreak c = false)
    (ht : lines t = line :: rest) : lines (c :: t) = (c :: line) :: rest := by
  rw [lines, ht]
  · exact if_neg (by simp [hc])
  · rintro rest rfl rfl
    exact absurd hc (by decide)

theorem lines_newline (t : Text) : lines ('\n' :: t) = [] :: lines t := by
  rw [lines]
  · rfl
  · rintro rest h
    exact absurd h (by decide)

/-- What stands in front of a line feed is a line. -/
theorem lines_append_newline (hs : Unbroken s) (t : Text) :
    lines (s ++ '\n' :: t) = s :: lines t := by
  induction s with
  | nil => exact lines_newline t
  | cons c s ih =>
    obtain ⟨hc, hs⟩ := List.forall_mem_cons.mp hs
    exact lines_cons hc (ih hs)

/-- Texts that each end with a line feed are the lines in front of what follows them. -/
theorem lines_flatMap (h : ∀ piece ∈ pieces, Unbroken piece) (t : Text) :
    lines (pieces.flatMap (· ++ ['\n']) ++ t) = pieces ++ lines t := by
  induction pieces with
  | nil => rfl
  | cons piece pieces ih =>
    obtain ⟨hpiece, hpieces⟩ := List.forall_mem_cons.mp h
    rw [List.flatMap_cons, List.append_assoc, List.append_assoc, List.singleton_append,
      lines_append_newline hpiece, ih hpieces, List.cons_append]

/-! ## Runs -/

section Run

variable {α : Type} {p : α → Bool} {as bs : List α}
variable (has : as.all p = true) (hbs : ∀ b ∈ bs.head?, p b = false)
include has hbs

/-- A run of items of one sort ends in front of the first one that is not. -/
theorem takeWhile_run : (as ++ bs).takeWhile p = as := by
  rw [List.takeWhile_append_of_pos (List.all_eq_true.mp has)]
  cases bs with
  | nil => exact List.append_nil as
  | cons b bs => rw [List.takeWhile_cons_of_neg (by simp [hbs b rfl]), List.append_nil]

theorem dropWhile_run : (as ++ bs).dropWhile p = bs := by
  rw [List.dropWhile_append_of_pos (List.all_eq_true.mp has)]
  cases bs with
  | nil => rfl
  | cons b bs => exact List.dropWhile_cons_of_neg (by simp [hbs b rfl])

end Run

/-! ## Words -/

/-- The code points of the blanks. -/
def blankCodes : List Nat := [9, 10, 11, 12, 13, 28, 29, 30, 31, 32, 0x85, 0xA0, 0x1680, 0x2000,
  0x2001, 0x2002, 0x2003, 0x2004, 0x2005, 0x2006, 0x2007, 0x2008, 0x2009, 0x200A, 0x2028, 0x2029,
  0x202F, 0x205F, 0x3000]

theorem toNat_mem_blankCodes (h : isBlank c = true) : c.toNat ∈ blankCodes := by
  simp only [isBlank, Bool.or_eq_true, Bool.and_eq_true, decide_eq_true_eq, beq_iff_eq] at h
  simp only [blankCodes, List.mem_cons, List.not_mem_nil, or_false]
  omega

/-- A sort of characters that has none of these code points has no blank. -/
theorem isBlank_eq_false_of_codes {p : Char → Bool}
    (hcodes : ∀ n ∈ blankCodes, p (Char.ofNat n) = false) (h : p c = true) : isBlank c = false := by
  by_contra hblank
  rw [Bool.not_eq_false] at hblank
  have hp := hcodes _ (toNat_mem_blankCodes hblank)
  rw [Char.ofNat_toNat, h] at hp
  cases hp

/-- No blank is part of a word. -/
theorem isBlank_eq_false_of_isWord (h : isWord c = true) : isBlank c = false :=
  isBlank_eq_false_of_codes (by decide +kernel) h

/-- Two more characters than those of words, neither of them blank, leave a word without blanks. -/
theorem isBlank_eq_false_of_isWord_or {a b : Char} (ha : isBlank a = false)
    (hb : isBlank b = false) (h : (isWord c || c == a || c == b) = true) : isBlank c = false := by
  rw [Bool.or_eq_true, Bool.or_eq_true, beq_iff_eq, beq_iff_eq] at h
  rcases h with (hword | rfl) | rfl
  · exact isBlank_eq_false_of_isWord hword
  · exact ha
  · exact hb

end ApiReference.Text
