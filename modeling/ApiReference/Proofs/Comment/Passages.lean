import ApiReference.Comment.Section
import ApiReference.Proofs.Comment.Framing

/-!
# What a block is written with

The text of a block is a list of passages: a line of prose, or code in its fences.
The lines of whole passages leave no fence open, so that an empty line after them
changes nothing in the section they make (`sectionNodes_append_empty`).
-/

namespace ApiReference.Comment

open Doc Text

/-- Whether a text starts with an at sign in front of an ASCII letter. -/
def startsTag : Text → Bool
  | '@' :: c :: _ => c.isAlpha
  | _ => false

/-- A line that is read as text whatever stands around it, unless that is code. -/
structure ProseLine where
  text : Text
  unbroken : Unbroken text
  trimmed : trim text = text
  not_tag : startsTag text = false
  not_fence : ¬ fence <+: text

/-- A line that can stand in a code block. -/
structure CodeLine where
  text : Text
  unbroken : Unbroken text
  trimmed : trimEnd text = text
  not_fence : ¬ fence <+: trim text

/-- A part of the text of a block. -/
inductive Passage where
  | prose (line : ProseLine)
  | code (language : Text) (named : language.all isLanguageChar = true) (lines : List CodeLine)

/-- The lines that a passage is written on. -/
def Passage.lines : Passage → List Text
  | .prose line => [line.text]
  | .code language _ lines => (fence ++ language) :: (lines.map CodeLine.text ++ [fence])

/-- The lines that passages are written on. -/
def linesOf (passages : List Passage) : List Text := passages.flatMap Passage.lines

variable {language : Text} {lines : List Text} {passages : List Passage} {opened : Open}

/-! ## Lines -/

theorem isFenceLine_eq_true_iff {line : Text} : isFenceLine line = true ↔ fence <+: trim line :=
  List.isPrefixOf_iff_prefix

namespace ProseLine

/-- The line that divides paragraphs. -/
def empty : ProseLine where
  text := []
  unbroken := .nil
  trimmed := rfl
  not_tag := rfl
  not_fence := by decide

variable (line : ProseLine)

theorem framable : Framable line.text := ⟨line.unbroken, (trim_eq_self_iff.mp line.trimmed).2⟩

theorem isFenceLine_eq : isFenceLine line.text = false := by
  rw [Bool.eq_false_iff, ne_eq, isFenceLine_eq_true_iff, line.trimmed]
  exact line.not_fence

theorem fenceLanguage?_eq : fenceLanguage? line.text = none := by
  have hfence : after? fence line.text = none := by
    rw [Option.eq_none_iff_forall_ne_some]
    intro rest hrest
    exact line.not_fence ⟨rest, (after?_eq_some.mp hrest).symm⟩
  rw [fenceLanguage?, line.trimmed, hfence]

end ProseLine

theorem CodeLine.isFenceLine_eq (line : CodeLine) : isFenceLine line.text = false := by
  rw [Bool.eq_false_iff, ne_eq, isFenceLine_eq_true_iff]
  exact line.not_fence

theorem isBlank_eq_false_of_isLanguageChar {c : Char} (h : isLanguageChar c = true) :
    isBlank c = false :=
  isBlank_eq_false_of_isWord_or rfl rfl h

theorem isBlank_eq_false_of_mem_fence : ∀ c ∈ fence, isBlank c = false := by
  intro c hc
  simp only [fence, List.mem_cons, List.not_mem_nil, or_false, or_self] at hc
  rw [hc]
  rfl

section Fence

variable (named : language.all isLanguageChar = true)
include named

theorem isBlank_eq_false_of_mem_language : ∀ c ∈ language, isBlank c = false := fun c hc =>
  isBlank_eq_false_of_isLanguageChar (List.all_eq_true.mp named c hc)

theorem framable_fence : Framable (fence ++ language) := by
  apply Framable.of_not_isBlank
  intro c hc
  rcases List.mem_append.mp hc with hc | hc
  · exact isBlank_eq_false_of_mem_fence c hc
  · exact isBlank_eq_false_of_mem_language named c hc

theorem trim_fence : trim (fence ++ language) = fence ++ language :=
  trim_eq_self_iff.mpr ⟨trimStart_cons rfl _, (framable_fence named).trimmed⟩

theorem isFenceLine_fence : isFenceLine (fence ++ language) = true := by
  rw [isFenceLine_eq_true_iff, trim_fence named]
  exact List.prefix_append fence language

theorem fenceLanguage?_fence : fenceLanguage? (fence ++ language) = some language := by
  have hstart : language.dropWhile isBlank = language := trimStart_eq_self_iff.mpr fun c hc =>
    isBlank_eq_false_of_mem_language named c (List.mem_of_mem_head? hc)
  rw [fenceLanguage?, trim_fence named, after?_append]
  dsimp only
  rw [hstart, if_pos named]

end Fence

theorem isFenceLine_self : isFenceLine fence = true := rfl

theorem Passage.framable (p : Passage) : ∀ l ∈ p.lines, Framable l := by
  intro l hl
  rcases p with line | ⟨language, named, lines⟩
  · rw [Passage.lines, List.mem_singleton] at hl
    rw [hl]
    exact line.framable
  · rw [Passage.lines, List.mem_cons, List.mem_append, List.mem_singleton] at hl
    rcases hl with rfl | hl | rfl
    · exact framable_fence named
    · obtain ⟨line, -, rfl⟩ := List.mem_map.mp hl
      exact ⟨line.unbroken, line.trimmed⟩
    · exact .of_not_isBlank isBlank_eq_false_of_mem_fence

theorem framable_of_mem_linesOf (passages : List Passage) :
    ∀ l ∈ linesOf passages, Framable l := by
  intro l hl
  obtain ⟨p, -, hl⟩ := List.mem_flatMap.mp hl
  exact p.framable l hl

/-! ## Sections -/

section Code

variable {code : List Text} (h : ∀ l ∈ code, isFenceLine l = false)
include h

theorem sectionFrom_code_append (language : Text) (before rest : List Text) :
    sectionFrom (.code language before) (code ++ rest) =
      sectionFrom (.code language (before ++ code)) rest := by
  induction code generalizing before with
  | nil => rw [List.append_nil, List.nil_append]
  | cons line code ih =>
    obtain ⟨hline, hcode⟩ := List.forall_mem_cons.mp h
    rw [List.cons_append, sectionFrom, hline, if_neg Bool.false_ne_true, ih hcode,
      List.append_assoc, List.singleton_append]

/-- Code is read up to the fence that closes it. -/
theorem sectionFrom_code (language : Text) (before : List Text) {closing : Text}
    (hclosing : isFenceLine closing = true) (rest : List Text) :
    sectionFrom (.code language before) (code ++ closing :: rest) =
      codeBlock language (before ++ code) :: sectionFrom (.prose []) rest := by
  rw [sectionFrom_code_append h, sectionFrom, if_pos hclosing]
  rfl

/-- Code that no fence closes is all that follows. -/
theorem sectionFrom_unclosed (language : Text) (before : List Text) :
    sectionFrom (.code language before) code = [codeBlock language (before ++ code)] := by
  have happend := sectionFrom_code_append h language before []
  rwa [List.append_nil] at happend

end Code

theorem CodeLine.isFenceLine_of_mem {lines : List CodeLine} :
    ∀ l ∈ lines.map CodeLine.text, isFenceLine l = false := by
  intro l hl
  obtain ⟨line, -, rfl⟩ := List.mem_map.mp hl
  exact line.isFenceLine_eq

/-- An empty line after whole passages changes nothing. -/
theorem sectionFrom_append_empty (before : List Text) (passages : List Passage) :
    sectionFrom (.prose before) (linesOf passages ++ [[]]) =
      sectionFrom (.prose before) (linesOf passages) := by
  induction passages generalizing before with
  | nil => exact List.append_nil (Open.prose before).close
  | cons p passages ih =>
    rw [linesOf, List.flatMap_cons, List.append_assoc]
    rcases p with line | ⟨language, named, lines⟩
    · simp only [Passage.lines, List.singleton_append, sectionFrom, line.fenceLanguage?_eq]
      rw [← linesOf, ih, ih]
    · simp only [Passage.lines, List.cons_append, List.append_assoc, List.nil_append, sectionFrom,
        fenceLanguage?_fence named,
        sectionFrom_code CodeLine.isFenceLine_of_mem _ _ isFenceLine_self]
      rw [← linesOf, ih]

theorem sectionNodes_append_empty (passages : List Passage) :
    sectionNodes (linesOf passages ++ [[]]) = sectionNodes (linesOf passages) :=
  sectionFrom_append_empty [] passages

theorem sectionNodes_cons_empty (lines : List Text) :
    sectionNodes ([] :: lines) = sectionNodes lines := rfl

end ApiReference.Comment
