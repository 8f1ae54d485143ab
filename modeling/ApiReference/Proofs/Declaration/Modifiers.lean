import ApiReference.Declaration.Signature
import ApiReference.Proofs.Text.Portion
import Mathlib.Data.List.Nodup

/-!
# Modifiers in signatures

The excerpt of a member begins with modifiers, in whatever order the declaration was
written, and its name follows them (`Modifiers`).  The signature of a static member is
its excerpt with `static` in front, unless the excerpt begins with that word already.
Modifiers at other places are not looked at, so that `static` is shown once only if it
is the first of the modifiers or none of them (`signature_static_once_iff`).
-/

namespace ApiReference

namespace Text

variable {c : Char} {s t : Text}

/-- The words of a text: what stands between its blanks. -/
def words (t : Text) : List Text := (t.splitOnP isBlank).filter (· ≠ [])

@[simp] theorem words_nil : words [] = [] := rfl

/-- A blank parts the words on both sides of it. -/
theorem words_append_cons (hc : isBlank c = true) (s t : Text) :
    words (s ++ c :: t) = words s ++ words t := by
  rw [words, List.splitOnP_append_cons s t hc, List.filter_append]
  rfl

theorem words_of_not_isBlank (hne : t ≠ []) (h : ∀ c ∈ t, isBlank c = false) : words t = [t] := by
  rw [words, List.splitOnP_eq_singleton h, List.filter_singleton]
  simp [hne]

/-- A text that ends with a blank is a word, a blank behind it, and what follows. -/
theorem exists_word_append (hne : t ≠ []) (hstart : ∀ c ∈ t.head?, isBlank c = false)
    (hend : ∀ c ∈ t.getLast?, isBlank c = true) :
    ∃ word c rest, t = word ++ c :: rest ∧ isBlank c = true ∧ words t = word :: words rest := by
  have hword : ∀ c ∈ t.takeWhile (!isBlank ·), isBlank c = false := fun c hc => by
    simpa using List.mem_takeWhile_imp hc
  have hhead : t.takeWhile (!isBlank ·) ≠ [] := by
    obtain ⟨c, t, rfl⟩ := List.exists_cons_of_ne_nil hne
    rw [List.takeWhile_cons_of_pos (by simpa using hstart c rfl)]
    exact List.cons_ne_nil _ _
  have hsplit : t.takeWhile (!isBlank ·) ++ t.dropWhile (!isBlank ·) = t :=
    List.takeWhile_append_dropWhile
  cases hrest : t.dropWhile (!isBlank ·) with
  | nil =>
    -- Then the text has no blank at all, nor one at its end.
    have hlast := List.dropWhile_eq_nil_iff.mp hrest _ (List.getLast_mem hne)
    rw [hend _ (List.getLast?_eq_some_getLast hne)] at hlast
    cases hlast
  | cons c rest =>
    have hc : isBlank c = true := by
      have hfirst := List.head?_dropWhile_not (!isBlank ·) t
      rw [hrest] at hfirst
      simpa using hfirst
    rw [hrest] at hsplit
    refine ⟨_, c, rest, hsplit.symm, hc, ?_⟩
    rw [← hsplit, words_append_cons hc, words_of_not_isBlank hhead hword, List.singleton_append,
      hsplit]

theorem isBlank_of_mem_head?_trim (hc : c ∈ (trim t).head?) : isBlank c = false := by
  refine trimStart_eq_self_iff.mp ?_ c hc
  rw [← trimStart_trimEnd]
  exact List.dropWhile_idempotent _ _

end Text

namespace Declaration

open Text

variable {i : Info} {lead : Text}

/-- The modifier of static members. -/
abbrev staticWord : Text := "static"

theorem isWord_of_mem_staticWord {c : Char} (hc : c ∈ staticWord) : isWord c = true := by
  have hall : staticWord.all isWord = true := by decide +kernel
  exact List.all_eq_true.mp hall c hc

/-! ## What a text starts with -/

theorem exists_static_append {t : Text} (h : t.takeWhile isWord = staticWord) :
    ∃ rest, t = staticWord ++ rest :=
  ⟨t.dropWhile isWord, (h ▸ List.takeWhile_append_dropWhile).symm⟩

/-- The word has to end behind the six letters. -/
theorem startsStatic_iff {t : Text} : startsStatic t = true ↔ t.takeWhile isWord = staticWord := by
  rw [startsStatic]
  cases hafter : after? staticWord t with
  | none =>
    refine iff_of_false Bool.false_ne_true fun hword => ?_
    obtain ⟨rest, hrest⟩ := exists_static_append hword
    rw [after?_eq_some.mpr hrest] at hafter
    cases hafter
  | some rest =>
    rw [after?_eq_some.mp hafter, List.takeWhile_append_of_pos fun _ => isWord_of_mem_staticWord,
      List.append_right_eq_self]
    cases rest with
    | nil => exact iff_of_true rfl rfl
    | cons c rest => simp [List.takeWhile_cons]

/-- The excerpt of a static member is left alone only if it begins with `static`. -/
theorem withModifiers_of_static (h : i.isStatic = true) :
    i.withModifiers = if (trim i.excerpt).takeWhile isWord = staticWord then trim i.excerpt
      else "static " ++ trim i.excerpt := by
  simp only [Info.withModifiers, h, Bool.true_and, Bool.not_eq_true', ← startsStatic_iff,
    Bool.eq_false_iff, ite_not]

/-- In front of `static` no word is dropped. -/
theorem signature_of_static (h : i.isStatic = true) : i.signature = i.withModifiers := by
  have hkept (t : Text) : exportWords.foldl (fun t word => (after? word t).getD t) ('s' :: t) =
      's' :: t := rfl
  obtain ⟨t, ht⟩ : ∃ t, i.withModifiers = 's' :: t := by
    rw [withModifiers_of_static h]
    split
    · rename_i hword
      obtain ⟨rest, hrest⟩ := exists_static_append hword
      exact ⟨_, hrest⟩
    · exact ⟨_, rfl⟩
  rw [Info.signature, ht, hkept]

/-! ## Modifiers in front of a name -/

/-- The words that may stand in front of the name of a member. -/
def modifierWords : List Text :=
  ["public", "protected", "private", "static", "readonly", "abstract", "override", "async"]

/-- A text in front of a name: modifiers, with blanks behind each of them. -/
structure Modifiers (lead : Text) : Prop where
  blank_behind : ∀ c ∈ lead.getLast?, isBlank c = true
  mem_modifierWords : ∀ word ∈ words lead, word ∈ modifierWords

theorem words_static_append (lead : Text) :
    words ("static " ++ lead) = staticWord :: words lead := by
  have hstatic : ∀ c ∈ staticWord, isBlank c = false := fun _ hc =>
    isBlank_eq_false_of_isWord (isWord_of_mem_staticWord hc)
  have hsplit : ("static " : Text) ++ lead = staticWord ++ ' ' :: lead := rfl
  rw [hsplit, words_append_cons isBlank_space, words_of_not_isBlank (by decide) hstatic,
    List.singleton_append]

namespace Modifiers

variable (h : Modifiers lead)
include h

/-- One more modifier in front. -/
theorem static_append : Modifiers ("static " ++ lead) where
  blank_behind := by
    by_cases hne : lead = []
    · rw [hne]
      rintro _ ⟨⟩
      exact isBlank_space
    · rw [List.getLast?_append_of_ne_nil _ hne]
      exact h.blank_behind
  mem_modifierWords := by
    rw [words_static_append]
    exact List.forall_mem_cons.mpr ⟨by decide, h.mem_modifierWords⟩

/-- The first modifier is the word that the whole text starts with. -/
theorem head?_words (hne : lead ≠ []) (hstart : ∀ c ∈ lead.head?, isBlank c = false) (body : Text) :
    (words lead).head? = some ((lead ++ body).takeWhile isWord) := by
  have hletters : ∀ word ∈ modifierWords, word.all isWord = true := by decide +kernel
  obtain ⟨word, c, rest, hlead, hc, hwords⟩ := exists_word_append hne hstart h.blank_behind
  have hword := hletters word (h.mem_modifierWords word (hwords ▸ List.mem_cons_self ..))
  rw [hwords, List.head?_cons, hlead, List.append_assoc, takeWhile_run hword]
  rintro _ ⟨⟩
  exact isWord_of_isBlank hc

end Modifiers

/-- In the signature of a static member the modifiers of its excerpt are shown in their order, in
front of the name and the rest as they are there, and perhaps one more `static` in front of them.
The word is shown once exactly if it is the first modifier of the excerpt, or none of them and not
the word that a name without modifiers starts with. -/
theorem signature_static_once_iff {rest : Text} (hstatic : i.isStatic = true)
    (hexcerpt : trim i.excerpt = lead ++ (i.name ++ rest)) (hlead : Modifiers lead)
    (honce : (words lead).Nodup) :
    ∃ lead', i.signature = lead' ++ (i.name ++ rest) ∧ Modifiers lead' ∧
      (words lead').filter (· ≠ staticWord) = (words lead).filter (· ≠ staticWord) ∧
      ((words lead').count staticWord = 1 ↔
        (words lead).head? = some staticWord ∨
        staticWord ∉ words lead ∧
          (lead = [] → (i.name ++ rest).takeWhile isWord ≠ staticWord)) := by
  have hhead (hne : lead ≠ []) :
      (words lead).head? = some ((trim i.excerpt).takeWhile isWord) := by
    rw [hexcerpt]
    refine hlead.head?_words hne (fun c hc => ?_) _
    refine isBlank_of_mem_head?_trim (t := i.excerpt) ?_
    rw [hexcerpt, List.head?_append_of_ne_nil _ hne]
    exact hc
  rw [signature_of_static hstatic, withModifiers_of_static hstatic]
  split
  · rename_i hword
    refine ⟨lead, hexcerpt, hlead, rfl, ?_⟩
    by_cases hne : lead = []
    · subst hne
      rw [hexcerpt, List.nil_append] at hword
      simp [hword]
    · have hfirst := (hhead hne).trans (congrArg some hword)
      have hmem : staticWord ∈ words lead := List.mem_of_mem_head? hfirst
      exact iff_of_true (List.count_eq_one_of_mem honce hmem) (.inl hfirst)
  · rename_i hword
    refine ⟨"static " ++ lead, by rw [hexcerpt, List.append_assoc], hlead.static_append, ?_, ?_⟩
    · rw [words_static_append]
      simp
    · rw [words_static_append, List.count_cons_self, Nat.add_eq_right, List.count_eq_zero]
      have hnot : (words lead).head? ≠ some staticWord := fun hfirst => by
        by_cases hne : lead = []
        · rw [hne] at hfirst
          cases hfirst
        · exact hword (Option.some.inj ((hhead hne).symm.trans hfirst))
      have hname : lead = [] → (i.name ++ rest).takeWhile isWord ≠ staticWord := fun hne => by
        rwa [hexcerpt, hne] at hword
      rw [or_iff_right hnot, and_iff_left hname]

/-- A member of which the excerpt does not say that it is static. -/
def sizeInfo : Info :=
  { Info.plain .property "size" with
    isStatic := true
    excerpt := "protected  readonly size: number;" }

theorem signature_static_once_of_size :
    sizeInfo.isStatic = true ∧
    trim sizeInfo.excerpt = "protected  readonly " ++ (sizeInfo.name ++ ": number;") ∧
    Modifiers "protected  readonly " ∧ (words "protected  readonly ").Nodup ∧
    ∃ lead', sizeInfo.signature = lead' ++ (sizeInfo.name ++ ": number;") ∧ Modifiers lead' ∧
      (words lead').filter (· ≠ staticWord) =
        (words "protected  readonly ").filter (· ≠ staticWord) ∧
      ((words lead').count staticWord = 1 ↔
        (words "protected  readonly ").head? = some staticWord ∨
        staticWord ∉ words "protected  readonly " ∧
          (("protected  readonly " : Text) = [] →
            (sizeInfo.name ++ ": number;").takeWhile isWord ≠ staticWord)) := by
  have hexcerpt : trim sizeInfo.excerpt =
      "protected  readonly " ++ (sizeInfo.name ++ ": number;") := by decide
  have hlead : Modifiers "protected  readonly " := ⟨by rintro _ ⟨⟩; exact isBlank_space, by decide⟩
  have honce : (words "protected  readonly ").Nodup := by decide
  exact ⟨rfl, hexcerpt, hlead, honce, signature_static_once_iff rfl hexcerpt hlead honce⟩

/-- Behind another modifier `static` is shown twice, and a name that starts like it hides that the
member is static. -/
theorem signature_static_miscounted :
    let count : Info :=
      { Info.plain .property "count" with
        isStatic := true
        excerpt := "public static count: number;" }
    let create : Info :=
      { Info.plain .method "static$" with
        isStatic := true
        excerpt := "static$(): void;" }
    (trim count.excerpt = "public static " ++ (count.name ++ ": number;") ∧
      Modifiers "public static " ∧ (words "public static ").Nodup ∧
      count.signature = "static public static " ++ (count.name ++ ": number;") ∧
      ¬ ∃ lead', count.signature = lead' ++ (count.name ++ ": number;") ∧
        (words lead').count staticWord = 1) ∧
    trim create.excerpt = create.name ++ "(): void;" ∧
      create.signature = create.name ++ "(): void;" ∧
      ¬ ∃ lead', create.signature = lead' ++ (create.name ++ "(): void;") ∧
        (words lead').count staticWord = 1 := by
  intro count create
  have hcount : count.signature = "static public static " ++ (count.name ++ ": number;") := by
    decide +kernel
  have hcreate : create.signature = ([] : Text) ++ (create.name ++ "(): void;") := by decide +kernel
  have hlead : Modifiers "public static " := ⟨by rintro _ ⟨⟩; exact isBlank_space, by decide⟩
  refine ⟨⟨by decide, hlead, by decide, hcount, ?_⟩, by decide, hcreate, ?_⟩
  · rintro ⟨lead', hshown, honce⟩
    rw [List.append_cancel_right (hshown.symm.trans hcount)] at honce
    exact absurd honce (by decide)
  · rintro ⟨lead', hshown, honce⟩
    rw [List.append_cancel_right (hshown.symm.trans hcreate)] at honce
    exact absurd honce (by decide)

end Declaration

end ApiReference
