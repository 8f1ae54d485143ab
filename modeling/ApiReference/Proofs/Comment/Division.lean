import Mathlib.Data.List.Chain
import ApiReference.Proofs.Comment.Passages
import ApiReference.Proofs.Text.Trim

/-!
# How lines are divided into paragraphs and code

The lines of a block are a row of stretches: blank lines, code from one fence to the
next, and prose in between.  There is exactly one way to divide them so that every
stretch of prose is as long as it can be (`divide`, `IsDivision.eq_divide`), and the
section has one node for each stretch that is not blank, in their order
(`sectionNodes_divide`).
-/

namespace ApiReference.Comment

open Doc Text

variable {line language : Text} {rest : List Text}

/-! ## Lines -/

/-- A line that opens code: a fence, blanks, the name of a language and blanks, with blanks around
them. -/
def Opens (line language : Text) : Prop :=
  language.all isLanguageChar = true ∧ ∃ gap gap', allBlank gap = true ∧ allBlank gap' = true ∧
    trim line = fence ++ gap ++ language ++ gap'

/-- A line that ends code. What else stands in it does not matter. -/
def Closes (line : Text) : Prop := fence <+: trim line

/-- A line of a paragraph. -/
def IsProse (line : Text) : Prop := allBlank line = false ∧ ∀ language, ¬ Opens line language

theorem isFenceLine_eq_false_iff : isFenceLine line = false ↔ ¬ Closes line := by
  rw [Closes, ← isFenceLine_eq_true_iff, Bool.not_eq_true]

/-- A trimmed line has no blanks behind the name of its language. -/
theorem fenceLanguage?_eq_some_iff : fenceLanguage? line = some language ↔ Opens line language := by
  constructor
  · intro h
    unfold fenceLanguage? at h
    split at h
    · cases h
    · rename_i rest hrest
      dsimp only at h
      split at h
      · rename_i named
        obtain rfl := Option.some.inj h
        refine ⟨named, rest.takeWhile isBlank, [], ?_, rfl, ?_⟩
        · exact List.all_eq_true.mpr fun c hc => isBlank_of_mem_takeWhile hc
        · rw [after?_eq_some.mp hrest, List.append_nil, List.append_assoc,
            List.takeWhile_append_dropWhile]
      · cases h
  · rintro ⟨named, gap, gap', hgap, hgap', htrim⟩
    have hlast := trimEnd_eq_self_iff.mp (trimEnd_trimEnd (trimStart line))
    obtain rfl : gap' = [] := by
      by_contra hne
      obtain ⟨c, hc⟩ := Option.ne_none_iff_exists'.mp (mt List.getLast?_eq_none_iff.mp hne)
      have hblank := List.all_eq_true.mp hgap' c (List.mem_of_getLast? hc)
      rw [hlast c (by rw [← trim, htrim, List.getLast?_append, hc]; rfl)] at hblank
      cases hblank
    have hhead : ∀ c ∈ language.head?, isBlank c = false := fun c hc =>
      isBlank_eq_false_of_mem_language named c (List.mem_of_mem_head? hc)
    rw [List.append_nil, List.append_assoc] at htrim
    rw [fenceLanguage?, htrim, after?_append]
    dsimp only
    rw [dropWhile_run hgap hhead, if_pos named]

theorem fenceLanguage?_eq_none (h : IsProse line) : fenceLanguage? line = none :=
  Option.eq_none_iff_forall_ne_some.mpr fun language hlanguage =>
    h.2 language (fenceLanguage?_eq_some_iff.mp hlanguage)

/-- A fence can be seen. -/
theorem not_opens_of_allBlank (h : allBlank line = true) : ¬ Opens line language := by
  rintro ⟨-, gap, gap', -, -, htrim⟩
  have hnil : trim line = [] := by
    have htrim' := trim_append_blank (List.all_eq_true.mp h) []
    rwa [List.append_nil] at htrim'
  rw [hnil] at htrim
  cases htrim

theorem fenceLanguage?_of_allBlank (h : allBlank line = true) : fenceLanguage? line = none :=
  Option.eq_none_iff_forall_ne_some.mpr fun _ hlanguage =>
    not_opens_of_allBlank h (fenceLanguage?_eq_some_iff.mp hlanguage)

/-- Whether a line is one of a paragraph. -/
def isProse (line : Text) : Bool := !allBlank line && (fenceLanguage? line).isNone

theorem isProse_eq_true_iff : isProse line = true ↔ IsProse line := by
  rw [isProse, Bool.and_eq_true, Bool.not_eq_true', Option.isNone_iff_eq_none,
    Option.eq_none_iff_forall_ne_some]
  exact and_congr_right fun _ => forall_congr' fun _ => not_congr fenceLanguage?_eq_some_iff

/-- Prose is collected as long as it goes on. -/
theorem sectionFrom_prose {lines : List Text} (h : ∀ l ∈ lines, IsProse l) (before : List Text) :
    sectionFrom (.prose before) (lines ++ rest) = sectionFrom (.prose (before ++ lines)) rest := by
  induction lines generalizing before with
  | nil => rw [List.append_nil, List.nil_append]
  | cons line lines ih =>
    obtain ⟨hline, hlines⟩ := List.forall_mem_cons.mp h
    rw [List.cons_append, sectionFrom, fenceLanguage?_eq_none hline]
    dsimp only
    rw [if_neg (by simp [hline.1]), ih hlines, List.append_assoc, List.singleton_append]

/-- A paragraph ends in front of anything else. -/
theorem sectionFrom_close (h : ∀ l ∈ rest.head?, ¬ IsProse l) (before : List Text) :
    sectionFrom (.prose before) rest =
      (Open.prose before).close ++ sectionFrom (.prose []) rest := by
  cases rest with
  | nil => exact (List.append_nil _).symm
  | cons line rest =>
    rw [sectionFrom, sectionFrom]
    cases hlanguage : fenceLanguage? line with
    | some language => rfl
    | none =>
      have hblank : allBlank line = true := by
        have hprose := mt isProse_eq_true_iff.mp (h line rfl)
        simpa [isProse, hlanguage] using hprose
      dsimp only
      rw [if_pos hblank, if_pos hblank]
      rfl

/-! ## Stretches -/

/-- A part of the lines of a block. -/
inductive Stretch where
  | blank (line : Text)
  | fenced (opening language : Text) (inner : List Text) (closing? : Option Text)
  | prose (lines : List Text)

namespace Stretch

def lines : Stretch → List Text
  | blank line => [line]
  | fenced opening _ inner closing? => opening :: (inner ++ closing?.toList)
  | prose lines => lines

/-- What a stretch is in the section of its block. -/
def nodes : Stretch → List Node
  | blank _ => []
  | fenced _ language inner _ => [codeBlock language inner]
  | prose lines => [paragraph lines]

/-- The lines of a stretch are what they are said to be. -/
def WellFormed : Stretch → Prop
  | blank line => allBlank line = true
  | fenced opening language inner closing? =>
    Opens opening language ∧ (∀ line ∈ inner, ¬ Closes line) ∧ ∀ line ∈ closing?, Closes line
  | prose lines => lines ≠ [] ∧ ∀ line ∈ lines, IsProse line

/-- Code that is not closed has nothing behind it, and two stretches of prose are one. -/
def CanPrecede : Stretch → Stretch → Prop
  | fenced _ _ _ none, _ => False
  | prose _, prose _ => False
  | _, _ => True

end Stretch

/-- Lines as a row of stretches, each of them as long as it can be. -/
structure IsDivision (lines : List Text) (ss : List Stretch) : Prop where
  lines_eq : ss.flatMap Stretch.lines = lines
  wellFormed : ∀ s ∈ ss, s.WellFormed
  maximal : ss.IsChain Stretch.CanPrecede

/-- The stretches that lines are made of. -/
def divide : List Text → List Stretch
  | [] => []
  | line :: rest =>
    match fenceLanguage? line with
    | some language =>
      let inner := rest.takeWhile fun l => !isFenceLine l
      let behind := rest.dropWhile fun l => !isFenceLine l
      .fenced line language inner behind.head? :: divide behind.tail
    | none =>
      if allBlank line then .blank line :: divide rest
      else .prose (line :: rest.takeWhile isProse) :: divide (rest.dropWhile isProse)
termination_by lines => lines.length
decreasing_by
  · rw [List.length_tail]
    exact Nat.lt_succ_of_le ((Nat.sub_le _ _).trans (List.dropWhile_sublist _).length_le)
  · exact Nat.lt_succ_self _
  · exact Nat.lt_succ_of_le (List.dropWhile_sublist _).length_le

/-! ## Where stretches end -/

namespace Stretch

/-- A stretch goes no further than to what follows. -/
def EndsAt : Stretch → List Text → Prop
  | fenced _ _ _ none, rest => rest = []
  | prose _, rest => ∀ line ∈ rest.head?, ¬ IsProse line
  | _, _ => True

variable {s : Stretch} {ss : List Stretch}

theorem endsAt_flatMap (hwell : ∀ s' ∈ ss, s'.WellFormed)
    (hnext : ∀ s' ∈ ss.head?, s.CanPrecede s') : s.EndsAt (ss.flatMap lines) := by
  cases ss with
  | nil =>
    rcases s with line | ⟨opening, language, inner, _ | closing⟩ | lines
    · trivial
    · rfl
    · trivial
    · exact nofun
  | cons s' ss =>
    have hfollows := hnext s' rfl
    have hfirst := hwell s' (List.mem_cons_self ..)
    rcases s with line | ⟨opening, language, inner, _ | closing⟩ | lines
    · trivial
    · exact hfollows.elim
    · trivial
    -- the lines of the next stretch start with a blank one or with a fence
    · rcases s' with line | ⟨opening, language, inner, closing?⟩ | lines'
      · rintro _ ⟨⟩ hprose
        exact absurd ((Eq.symm hfirst).trans hprose.1) (by decide)
      · rintro _ ⟨⟩ hprose
        exact hprose.2 language hfirst.1
      · exact hfollows.elim

variable (h : s.WellFormed) (hend : s.EndsAt rest)
include h hend

/-- A stretch that ends where the other lines start is divided off. -/
theorem divide_append : divide (s.lines ++ rest) = s :: divide rest := by
  rcases s with line | ⟨opening, language, inner, closing?⟩ | lines
  · rw [lines, List.singleton_append, divide, fenceLanguage?_of_allBlank h]
    exact if_pos h
  · obtain ⟨hopens, hinner, hcloses⟩ := h
    have hrun : inner.all (fun l => !isFenceLine l) = true := by
      simpa [isFenceLine_eq_false_iff] using hinner
    have hbehind : ∀ l ∈ (closing?.toList ++ rest).head?, (!isFenceLine l) = false := by
      cases closing? with
      | none =>
        obtain rfl : rest = [] := hend
        exact nofun
      | some closing =>
        rintro _ ⟨⟩
        rw [isFenceLine_eq_true_iff.mpr (hcloses closing rfl), Bool.not_true]
    rw [lines, List.cons_append, List.append_assoc, divide, fenceLanguage?_eq_some_iff.mpr hopens]
    dsimp only
    rw [takeWhile_run hrun hbehind, dropWhile_run hrun hbehind]
    cases closing? with
    | none =>
      obtain rfl : rest = [] := hend
      rfl
    | some closing => rfl
  · obtain ⟨hne, hprose⟩ := h
    obtain ⟨line, more, rfl⟩ := List.exists_cons_of_ne_nil hne
    obtain ⟨hline, hmore⟩ := List.forall_mem_cons.mp hprose
    have hrun : more.all isProse = true :=
      List.all_eq_true.mpr fun l hl => isProse_eq_true_iff.mpr (hmore l hl)
    have hrest : ∀ l ∈ rest.head?, isProse l = false := fun l hl =>
      Bool.eq_false_iff.mpr (mt isProse_eq_true_iff.mp (hend l hl))
    rw [lines, List.cons_append, divide, fenceLanguage?_eq_none hline]
    dsimp only
    rw [if_neg (by simp [hline.1]), takeWhile_run hrun hrest, dropWhile_run hrun hrest]

/-- The section of a stretch and of what follows it. -/
theorem sectionNodes_append : sectionNodes (s.lines ++ rest) = s.nodes ++ sectionNodes rest := by
  rcases s with line | ⟨opening, language, inner, closing?⟩ | prose
  · rw [lines, List.singleton_append, sectionNodes, sectionFrom, fenceLanguage?_of_allBlank h]
    exact if_pos h
  · obtain ⟨hopens, hinner, hcloses⟩ := h
    have hcode : ∀ l ∈ inner, isFenceLine l = false := fun l hl =>
      isFenceLine_eq_false_iff.mpr (hinner l hl)
    rw [lines, List.cons_append, List.append_assoc, sectionNodes, sectionFrom,
      fenceLanguage?_eq_some_iff.mpr hopens]
    dsimp only
    cases closing? with
    | none =>
      obtain rfl : rest = [] := hend
      rw [Option.toList_none, List.append_nil, List.append_nil, sectionFrom_unclosed hcode]
      rfl
    | some closing =>
      have hcloses := isFenceLine_eq_true_iff.mpr (hcloses closing rfl)
      rw [Option.toList_some, List.singleton_append, sectionFrom_code hcode language [] hcloses]
      rfl
  · rw [lines, sectionNodes, sectionFrom_prose h.2, sectionFrom_close hend]
    obtain ⟨line, more, rfl⟩ := List.exists_cons_of_ne_nil h.1
    rfl

end Stretch

/-! ## Divisions -/

namespace IsDivision

variable {lines : List Text} {ss : List Stretch}

theorem nil : IsDivision [] [] := ⟨rfl, List.forall_mem_nil _, .nil⟩

theorem cons {s : Stretch} (hs : s.WellFormed) (hnext : ∀ s' ∈ ss.head?, s.CanPrecede s')
    (h : IsDivision lines ss) : IsDivision (s.lines ++ lines) (s :: ss) where
  lines_eq := by rw [List.flatMap_cons, h.lines_eq]
  wellFormed := List.forall_mem_cons.mpr ⟨hs, h.wellFormed⟩
  maximal := List.isChain_cons.mpr ⟨hnext, h.maximal⟩

/-- What holds at the end of every stretch holds of divisions. -/
@[elab_as_elim]
theorem induction {motive : List Text → List Stretch → Prop} (h : IsDivision lines ss)
    (nil : motive [] [])
    (cons : ∀ s ss rest, s.WellFormed → s.EndsAt rest → motive rest ss →
      motive (s.lines ++ rest) (s :: ss)) : motive lines ss := by
  obtain ⟨rfl, hwell, hmaximal⟩ := h
  induction ss with
  | nil => exact nil
  | cons s ss ih =>
    obtain ⟨hs, hss⟩ := List.forall_mem_cons.mp hwell
    obtain ⟨hnext, hmaximal⟩ := List.isChain_cons.mp hmaximal
    rw [List.flatMap_cons]
    exact cons s ss _ hs (Stretch.endsAt_flatMap hss hnext) (ih hss hmaximal)

/-- There is no other way to divide lines. -/
theorem eq_divide (h : IsDivision lines ss) : ss = divide lines := by
  refine h.induction ?_ fun s ss rest hs hend ih => ?_
  · rw [divide]
  · rw [Stretch.divide_append hs hend, ← ih]

theorem sectionNodes_eq (h : IsDivision lines ss) :
    sectionNodes lines = ss.flatMap Stretch.nodes := by
  refine h.induction rfl fun s ss rest hs hend ih => ?_
  rw [Stretch.sectionNodes_append hs hend, ih, List.flatMap_cons]

end IsDivision

/-- Prose is divided off only where there is some. -/
theorem isProse_of_head?_divide {lines prose : List Text}
    (h : .prose prose ∈ (divide lines).head?) : ∃ l ∈ lines.head?, isProse l = true := by
  cases lines with
  | nil =>
    rw [divide] at h
    cases h
  | cons line rest =>
    rw [divide] at h
    split at h
    · cases h
    · rename_i hnone
      split at h
      · cases h
      · rename_i hblank
        exact ⟨line, rfl, by simp [isProse, hnone, hblank]⟩

theorem isDivision_divide (lines : List Text) : IsDivision lines (divide lines) := by
  fun_induction divide lines with
  | case1 => exact .nil
  | case2 line rest language hlanguage inner behind ih =>
    have hbehind : behind.head?.toList ++ behind.tail = behind := by
      cases behind with
      | nil => rfl
      | cons closing behind => rfl
    have hlines : line :: rest =
        (Stretch.fenced line language inner behind.head?).lines ++ behind.tail := by
      rw [Stretch.lines, List.cons_append, List.append_assoc, hbehind,
        List.takeWhile_append_dropWhile]
    rw [hlines]
    refine ih.cons ⟨fenceLanguage?_eq_some_iff.mp hlanguage, fun l hl => ?_, fun l hl => ?_⟩ ?_
    · exact isFenceLine_eq_false_iff.mp (by simpa using List.mem_takeWhile_imp hl)
    · have hfence := List.head?_dropWhile_not (fun l => !isFenceLine l) rest
      rw [Option.mem_def.mp hl] at hfence
      exact isFenceLine_eq_true_iff.mp (by simpa using hfence)
    · cases behind with
      | nil =>
        rw [List.tail_nil, divide]
        exact nofun
      | cons closing behind => exact fun _ _ => trivial
  | case3 line rest hnone hblank ih =>
    exact ih.cons (s := .blank line) hblank fun _ _ => trivial
  | case4 line rest hnone hblank ih =>
    have hline : isProse line = true := by simp [isProse, hnone, hblank]
    have hlines : line :: rest =
        (Stretch.prose (line :: rest.takeWhile isProse)).lines ++ rest.dropWhile isProse := by
      rw [Stretch.lines, List.cons_append, List.takeWhile_append_dropWhile]
    rw [hlines]
    refine ih.cons ⟨List.cons_ne_nil _ _, List.forall_mem_cons.mpr ⟨?_, fun l hl => ?_⟩⟩ ?_
    · exact isProse_eq_true_iff.mp hline
    · exact isProse_eq_true_iff.mp (List.mem_takeWhile_imp hl)
    · rintro (line' | ⟨opening, language, inner, closing?⟩ | prose) hs
      · trivial
      · trivial
      -- no prose is divided off right behind the longest run of it
      · obtain ⟨l, hl, hprose⟩ := isProse_of_head?_divide hs
        have hnot := List.head?_dropWhile_not isProse rest
        rw [Option.mem_def.mp hl] at hnot
        exact absurd (hprose.symm.trans hnot) (by decide)

/-- Lines are divided in one way into blank lines, code and prose, so that every line is in one
stretch, and their section has the nodes of these stretches in order. -/
theorem sectionNodes_divide (lines : List Text) :
    IsDivision lines (divide lines) ∧ (∀ ss, IsDivision lines ss → ss = divide lines) ∧
      sectionNodes lines = (divide lines).flatMap Stretch.nodes :=
  ⟨isDivision_divide lines, fun _ h => h.eq_divide, (isDivision_divide lines).sectionNodes_eq⟩

end ApiReference.Comment
