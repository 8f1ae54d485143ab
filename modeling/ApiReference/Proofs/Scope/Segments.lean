import ApiReference.Proofs.Text.Split
import ApiReference.Proofs.Text.Trim
import ApiReference.Scope.Reference

/-!
# References made of names

Selectors, parentheses and package names are set off by characters that no identifier
has, whatever its script (`isWordName`).  So a reference that joins such names by dots
lists just these (`segments_join`), and two lists of names that are joined to the same
text are the same (`join_injective`).
-/

namespace ApiReference.Scope

variable {name t : Text} {names names' : List Text} {c : Char}

/-- The characters that identifiers go on with. -/
def isNameChar (c : Char) : Bool := c.isAlphanum || c == '_' || c == '$'

/-- An ASCII letter or an underscore with letters, digits, underscores and dollar signs after it. -/
def isIdentifier : Text → Bool
  | [] => false
  | c :: t => (c.isAlpha || c == '_') && t.all isNameChar

theorem isIdentifier_cons : isIdentifier (c :: t) = true ↔
    (c.isAlpha = true ∨ c = '_') ∧ t.all isNameChar = true := by
  simp only [isIdentifier, Bool.and_eq_true, Bool.or_eq_true, beq_iff_eq]

theorem ne_nil_of_isIdentifier (h : isIdentifier name = true) : name ≠ [] := by
  rintro rfl
  cases h

theorem isWord_of_isAlphanum (h : c.isAlphanum = true) : Text.isWord c = true := by
  refine Text.isWord_of_isAlphanum ?_ h
  unfold Char.isAlphanum Char.isAlpha Char.isUpper Char.isLower Char.isDigit at h
  simp only [Bool.or_eq_true, Bool.and_eq_true, decide_eq_true_eq, ge_iff_le,
    UInt32.le_iff_toNat_le] at h
  have hcode : c.toNat = c.val.toNat := rfl
  have hZ : 'Z'.val.toNat = 90 := rfl
  have hz : 'z'.val.toNat = 122 := rfl
  have h9 : '9'.val.toNat = 57 := rfl
  omega

/-- An identifier starts with a character of a word. -/
theorem head?_of_isIdentifier (h : isIdentifier name = true) :
    name.head?.any Text.isWord = true := by
  obtain ⟨c, t, rfl⟩ := List.exists_cons_of_ne_nil (ne_nil_of_isIdentifier h)
  rcases (isIdentifier_cons.mp h).1 with halpha | rfl
  · exact isWord_of_isAlphanum (by simp [Char.isAlphanum, halpha])
  · rfl

theorem isNameChar_of_mem (h : isIdentifier name = true) (hc : c ∈ name) : isNameChar c = true := by
  obtain ⟨d, t, rfl⟩ := List.exists_cons_of_ne_nil (ne_nil_of_isIdentifier h)
  obtain ⟨hd, ht⟩ := isIdentifier_cons.mp h
  rcases List.mem_cons.mp hc with rfl | hc
  · rcases hd with halpha | rfl
    · simp [isNameChar, Char.isAlphanum, halpha]
    · rfl
  · exact List.all_eq_true.mp ht c hc

/-! ## Names without marks -/

/-- A name of characters of words and dollar signs, as identifiers of any script are. -/
def isWordName (t : Text) : Bool := !t.isEmpty && t.all isGroupChar

theorem isWordName_iff : isWordName t = true ↔ t ≠ [] ∧ ∀ c ∈ t, isGroupChar c = true := by
  simp [isWordName]

theorem isGroupChar_of_isNameChar (h : isNameChar c = true) : isGroupChar c = true := by
  simp only [isNameChar, Bool.or_eq_true, beq_iff_eq] at h
  rcases h with (h | rfl) | rfl
  · rw [isGroupChar, isWord_of_isAlphanum h, Bool.true_or]
  · rfl
  · rfl

theorem isWordName_of_isIdentifier (h : isIdentifier name = true) : isWordName name = true :=
  isWordName_iff.mpr
    ⟨ne_nil_of_isIdentifier h, fun _ hc => isGroupChar_of_isNameChar (isNameChar_of_mem h hc)⟩

theorem isBlank_of_isGroupChar (h : isGroupChar c = true) : Text.isBlank c = false := by
  rw [isGroupChar, Bool.or_eq_true, beq_iff_eq] at h
  rcases h with hword | rfl
  · exact Text.isBlank_eq_false_of_isWord hword
  · rfl

theorem trim_of_not_isBlank (h : ∀ c ∈ t, Text.isBlank c = false) : Text.trim t = t :=
  Text.trim_eq_self_iff.mpr
    ⟨Text.trimStart_eq_self_iff.mpr fun c hc => h c (List.mem_of_mem_head? hc),
      Text.trimEnd_eq_self_iff.mpr fun c hc => h c (List.mem_of_mem_getLast? hc)⟩

/-! ## What does not occur -/

theorem dropSelectors_of_not_mem (h : ':' ∉ t) : dropSelectors false t = t := by
  induction t with
  | nil => rfl
  | cons c t ih =>
    rw [List.mem_cons, not_or] at h
    rw [dropSelectors, if_neg (by simp), if_neg (by simp [Ne.symm h.1]), ih h.2]

theorem openGroups_of_not_mem (h : '(' ∉ t) : openGroups t = t := by
  induction t with
  | nil => rw [openGroups]
  | cons c t ih =>
    rw [List.mem_cons, not_or] at h
    rw [openGroups, if_neg (Ne.symm h.1), ih h.2]

theorem dropPackage_of_not_mem (package? : Option Text) (h : '#' ∉ t) :
    dropPackage package? t = t := by
  rw [dropPackage, Text.cut_of_not_mem h]

/-- Names joined by dots have no characters but those of the names and dots. -/
theorem isGroupChar_of_mem_join (h : ∀ n ∈ names, isWordName n = true)
    (hc : c ∈ Text.join "." names) : isGroupChar c = true ∨ c = '.' := by
  by_contra hno
  rw [not_or] at hno
  exact Text.not_mem_join hno.2 (fun n hn hmem => hno.1 ((isWordName_iff.mp (h n hn)).2 c hmem)) hc

theorem not_mem_join_of_isGroupChar (h : ∀ n ∈ names, isWordName n = true)
    (hc : isGroupChar c = false) (hdot : c ≠ '.') : c ∉ Text.join "." names := by
  intro hmem
  rcases isGroupChar_of_mem_join h hmem with hname | heq
  · rw [hc] at hname
    cases hname
  · exact hdot heq

theorem splitAt_join_names (h : ∀ n ∈ names, isWordName n = true) (hne : names ≠ []) :
    Text.splitAt '.' (Text.join "." names) = names :=
  have hdotless (n : Text) (hn : n ∈ names) (hdot : '.' ∈ n) : False :=
    absurd ((isWordName_iff.mp (h n hn)).2 _ hdot) (by decide)
  Text.splitAt_join hdotless hne

/-- Names can be read off the text that they are joined to. -/
theorem join_injective (h : ∀ n ∈ names, isWordName n = true)
    (h' : ∀ n ∈ names', isWordName n = true) (hne : names ≠ []) (hne' : names' ≠ [])
    (heq : Text.join "." names = Text.join "." names') : names = names' := by
  rw [← splitAt_join_names h hne, heq, splitAt_join_names h' hne']

/-! ## References -/

/-- The names that a reference lists behind its package. -/
def listedNames (t : Text) : List Text :=
  ((Text.splitAt '.' (openGroups (dropSelectors false
    (t.map fun c => if c = '~' then '.' else c)))).map Text.trim).filter fun n => !n.isEmpty

theorem segments_eq (package? : Option Text) (t : Text) :
    segments package? t = listedNames (dropPackage package? (Text.trim t)) := rfl

/-- In a text without blanks, mark and tilde, nothing but selectors and parentheses stands around
the names. -/
theorem segments_eq_of_plain (package? : Option Text) (hblank : ∀ c ∈ t, Text.isBlank c = false)
    (hmark : '#' ∉ t) (htilde : '~' ∉ t) : segments package? t =
      ((Text.splitAt '.' (openGroups (dropSelectors false t))).map Text.trim).filter
        fun n => !n.isEmpty := by
  have hdots : t.map (fun c => if c = '~' then '.' else c) = t := by
    refine (List.map_congr_left fun c hc => if_neg ?_).trans (List.map_id t)
    rintro rfl
    exact htilde hc
  rw [segments_eq, trim_of_not_isBlank hblank, dropPackage_of_not_mem _ hmark, listedNames, hdots]

/-- Names that are joined by dots are found between the dots. -/
theorem filter_splitAt_join (h : ∀ n ∈ names, isWordName n = true) :
    ((Text.splitAt '.' (Text.join "." names)).map Text.trim).filter (fun n => !n.isEmpty) =
      names := by
  by_cases hne : names = []
  · rw [hne]
    rfl
  · have htrim : names.map Text.trim = names := by
      refine (List.map_congr_left fun n hn => ?_).trans (List.map_id _)
      exact trim_of_not_isBlank fun c hc =>
        isBlank_of_isGroupChar ((isWordName_iff.mp (h n hn)).2 c hc)
    rw [splitAt_join_names h hne, htrim, List.filter_eq_self]
    intro n hn
    simpa using (isWordName_iff.mp (h n hn)).1

/-- A reference that joins names by dots lists these. -/
theorem segments_join (package? : Option Text) (h : ∀ n ∈ names, isWordName n = true) :
    segments package? (Text.join "." names) = names := by
  have hblank : ∀ c ∈ Text.join "." names, Text.isBlank c = false := by
    intro c hc
    rcases isGroupChar_of_mem_join h hc with hname | rfl
    · exact isBlank_of_isGroupChar hname
    · rfl
  rw [segments_eq_of_plain _ hblank (not_mem_join_of_isGroupChar h rfl (by decide))
      (not_mem_join_of_isGroupChar h rfl (by decide)),
    dropSelectors_of_not_mem (not_mem_join_of_isGroupChar h rfl (by decide)),
    openGroups_of_not_mem (not_mem_join_of_isGroupChar h rfl (by decide)), filter_splitAt_join h]

end ApiReference.Scope
