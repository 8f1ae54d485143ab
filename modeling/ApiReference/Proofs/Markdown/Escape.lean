import ApiReference.Markdown.Escape
import Mathlib.Data.List.Infix
import Mathlib.Logic.Function.Basic

/-!
# Escaped text read back

Escaping takes three passes, and a later pass sees the backslashes that an earlier one
has written.  What they come to is simple all the same: each character is written as
itself, behind a backslash, or as an entity (`Spells`), and which of these it is can be
seen from the first character written.  So escaped text shows no markup, and one pass
reads it back.
-/

namespace ApiReference.Markdown

variable {e t rest : Text} {c : Char} {p : Char → Bool}

/-! ## Reading escaped text -/

/-- The text that an escaped text stands for, read in one pass. `p` tells which characters a
backslash in front of them is dropped from. -/
def unescape (p : Char → Bool) : Text → Text
  | [] => []
  | '\\' :: c :: t => if p c then c :: unescape p t else '\\' :: unescape p (c :: t)
  | '&' :: 'a' :: 'm' :: 'p' :: ';' :: t => '&' :: unescape p t
  | '&' :: 'l' :: 't' :: ';' :: t => '<' :: unescape p t
  | '&' :: 'g' :: 't' :: ';' :: t => '>' :: unescape p t
  | c :: t => c :: unescape p t

/-- The characters of a text, but for a backslash and the character behind it, which go together. -/
def tokens : Text → List Text
  | [] => []
  | '\\' :: c :: t => ['\\', c] :: tokens t
  | c :: t => [c] :: tokens t

/-- The characters that are markup unless a backslash stands in front of them. -/
def markup : List Char := ['*', '#', '[', ']', '_', '|', '\x60', '~']

/-- What follows the ampersand of an entity. -/
def entityTails : List Text := ["amp;", "lt;", "gt;"]

/-- A text without three hyphens in a row, which could be taken for a rule. -/
def NoRule (e : Text) : Prop := ¬ ['-', '-', '-'] <:+: e

/-- Every ampersand of a text starts an entity. -/
def EntitiesOnly (e : Text) : Prop :=
  ∀ before after, e = before ++ '&' :: after → ∃ tail ∈ entityTails, tail <+: after

/-- Text in which nothing can be taken for markup. -/
structure ShowsNoMarkup (e : Text) : Prop where
  /-- No character of markup stands without a backslash. -/
  not_mem_tokens : ∀ c ∈ markup, [c] ∉ tokens e
  not_mem_angle : '<' ∉ e ∧ '>' ∉ e
  noRule : NoRule e
  entitiesOnly : EntitiesOnly e

theorem unescape_cons (p : Char → Bool) (hback : c ≠ '\\') (hamp : c ≠ '&') (t : Text) :
    unescape p (c :: t) = c :: unescape p t := by
  rw [unescape]
  · rintro d t' rfl
    exact absurd rfl hback
  all_goals
    rintro t' rfl
    exact absurd rfl hamp

theorem tokens_cons (hback : c ≠ '\\') (t : Text) : tokens (c :: t) = [c] :: tokens t := by
  rw [tokens]
  rintro d t' rfl
  exact absurd rfl hback

/-! ## Spelling -/

/-- The characters that are written as entities. -/
def isEntity (c : Char) : Bool := c == '&' || c == '<' || c == '>'

/-- The characters that are written behind a backslash, some of them only in a run. -/
def isBackslashed (c : Char) : Bool := isSpecial c || c == '-'

/-- A spelling of a text, a character at a time. -/
inductive Spells : Text → Text → Prop
  | nil : Spells [] []
  /-- A character that means nothing else is spelled as it is. -/
  | plain {c : Char} {e t : Text} : isSpecial c = false → isEntity c = false →
      Spells e t → Spells (c :: e) (c :: t)
  | pair {c : Char} {e t : Text} : isBackslashed c = true → Spells e t →
      Spells ('\\' :: c :: e) (c :: t)
  | entity {c : Char} {e t : Text} : isEntity c = true → Spells e t →
      Spells (escapeEntity c ++ e) (c :: t)

theorem isEntity_iff : isEntity c = true ↔ c = '&' ∨ c = '<' ∨ c = '>' := by
  simp [isEntity, or_assoc]

theorem isEntity_eq_false_iff : isEntity c = false ↔ c ≠ '&' ∧ c ≠ '<' ∧ c ≠ '>' := by
  simp [isEntity, and_assoc]

theorem escapeEntity_of_not_isEntity (h : isEntity c = false) : escapeEntity c = [c] := by
  obtain ⟨hamp, hless, hgreater⟩ := isEntity_eq_false_iff.mp h
  rw [escapeEntity, if_neg hamp, if_neg hless, if_neg hgreater]

theorem ne_backslash (h : isSpecial c = false) : c ≠ '\\' := by
  rintro rfl
  cases h

/-- What the characters written behind a backslash have in common. -/
theorem of_isBackslashed (hp : ('\\' :: '-' :: markup).all p = true) (h : isBackslashed c = true) :
    p c = true := by
  refine List.all_eq_true.mp hp c ?_
  simp only [isBackslashed, isSpecial, Bool.or_eq_true, beq_iff_eq] at h
  simp only [markup, List.mem_cons, List.not_mem_nil, or_false]
  tauto

theorem isEntity_eq_false_of_isBackslashed (h : isBackslashed c = true) : isEntity c = false := by
  have hplain : ('\\' :: '-' :: markup).all (fun c => !isEntity c) = true := rfl
  simpa using of_isBackslashed hplain h

/-- The passes after the first one spell a character, whatever run of hyphens it continues. -/
theorem spells_escapeHyphens (inRun : Bool) (t : Text) :
    Spells ((escapeHyphens inRun (t.flatMap escapeSpecial)).flatMap escapeEntity) t := by
  have hback : escapeEntity '\\' = ['\\'] := rfl
  have hhyphen : escapeEntity '-' = ['-'] := rfl
  induction t generalizing inRun with
  | nil => exact .nil
  | cons c t ih =>
    rw [List.flatMap_cons, escapeSpecial]
    by_cases hspecial : isSpecial c = true
    · have hpair : isBackslashed c = true := by
        rw [isBackslashed, hspecial, Bool.true_or]
      have hc : c ≠ '-' := by
        rintro rfl
        exact absurd hspecial (by decide)
      rw [if_pos hspecial, List.cons_append, List.singleton_append, escapeHyphens,
        if_neg (by decide), escapeHyphens, if_neg hc, List.flatMap_cons, hback, List.flatMap_cons,
        escapeEntity_of_not_isEntity (isEntity_eq_false_of_isBackslashed hpair)]
      exact .pair hpair (ih false)
    · rw [if_neg hspecial, List.singleton_append, escapeHyphens]
      rw [Bool.not_eq_true] at hspecial
      by_cases hc : c = '-'
      · subst hc
        rw [if_pos rfl]
        split
        · rw [List.flatMap_cons, hback, List.flatMap_cons, hhyphen]
          exact .pair rfl (ih true)
        · rw [List.flatMap_cons, hhyphen]
          exact .plain rfl rfl (ih false)
      · rw [if_neg hc, List.flatMap_cons]
        cases hentity : isEntity c with
        | true => exact .entity hentity (ih false)
        | false =>
          rw [escapeEntity_of_not_isEntity hentity]
          exact .plain hspecial hentity (ih false)

/-- Escaping spells a text. -/
theorem spells_escape (t : Text) : Spells (escape t) t := spells_escapeHyphens false t

namespace Spells

/-- What is spelled is read back, whatever follows. -/
theorem unescape_append (hp : ∀ c, isBackslashed c = true → p c = true) (h : Spells e t)
    (rest : Text) : unescape p (e ++ rest) = t ++ unescape p rest := by
  induction h with
  | nil => rfl
  | @plain c e t hspecial hentity _ ih =>
    have hamp := (isEntity_eq_false_iff.mp hentity).1
    rw [List.cons_append, unescape_cons p (ne_backslash hspecial) hamp, ih, List.cons_append]
  | @pair c e t hc _ ih =>
    rw [List.cons_append, List.cons_append, unescape, if_pos (hp c hc), ih, List.cons_append]
  | @entity c e t hc _ ih =>
    rw [List.append_assoc, List.cons_append, ← ih]
    rcases isEntity_iff.mp hc with rfl | rfl | rfl <;> rfl

/-- A special character is always the second one of its token. -/
theorem isSpecial_eq_false (h : Spells e t) {c : Char} (hc : [c] ∈ tokens e) :
    isSpecial c = false := by
  induction h with
  | nil => exact absurd hc List.not_mem_nil
  | @plain d e t hspecial _ _ ih =>
    rw [tokens_cons (ne_backslash hspecial), List.mem_cons, List.singleton_inj] at hc
    rcases hc with rfl | hc
    · exact hspecial
    · exact ih hc
  | @pair d e t _ _ ih =>
    rw [tokens, List.mem_cons] at hc
    rcases hc with hc | hc
    · exact absurd hc (by simp)
    · exact ih hc
  | @entity d e t hd _ ih =>
    have htokens : tokens (escapeEntity d ++ e) = (escapeEntity d).map ([·]) ++ tokens e := by
      rcases isEntity_iff.mp hd with rfl | rfl | rfl <;> rfl
    rw [htokens, List.mem_append] at hc
    rcases hc with hc | hc
    · obtain ⟨b, hb, heq⟩ := List.mem_map.mp hc
      obtain rfl := List.singleton_inj.mp heq
      have hplain : (escapeEntity d).all (fun b => !isSpecial b) = true := by
        rcases isEntity_iff.mp hd with rfl | rfl | rfl <;> rfl
      simpa using List.all_eq_true.mp hplain b hb
    · exact ih hc

theorem not_mem_angle (h : Spells e t) : '<' ∉ e ∧ '>' ∉ e := by
  induction h with
  | nil => exact ⟨List.not_mem_nil, List.not_mem_nil⟩
  | plain _ hentity _ ih =>
    obtain ⟨-, hless, hgreater⟩ := isEntity_eq_false_iff.mp hentity
    simp only [List.mem_cons, not_or]
    exact ⟨⟨hless.symm, ih.1⟩, hgreater.symm, ih.2⟩
  | pair hc _ ih =>
    obtain ⟨-, hless, hgreater⟩ :=
      isEntity_eq_false_iff.mp (isEntity_eq_false_of_isBackslashed hc)
    simp only [List.mem_cons, not_or]
    exact ⟨⟨by decide, hless.symm, ih.1⟩, by decide, hgreater.symm, ih.2⟩
  | @entity c e t hc _ ih =>
    simp only [List.mem_append, not_or]
    have hfree : '<' ∉ escapeEntity c ∧ '>' ∉ escapeEntity c := by
      rcases isEntity_iff.mp hc with rfl | rfl | rfl <;> decide
    exact ⟨⟨hfree.1, ih.1⟩, hfree.2, ih.2⟩

end Spells

/-! ## Ampersands -/

theorem EntitiesOnly.cons (h : EntitiesOnly e)
    (hc : c = '&' → ∃ tail ∈ entityTails, tail <+: e) : EntitiesOnly (c :: e) := by
  intro before after heq
  cases before with
  | nil =>
    obtain ⟨rfl, rfl⟩ := List.cons_eq_cons.mp heq
    exact hc rfl
  | cons b before =>
    obtain ⟨rfl, rfl⟩ := List.cons_eq_cons.mp heq
    exact h before after rfl

theorem EntitiesOnly.append (h : EntitiesOnly e) {s : Text} (hs : '&' ∉ s) :
    EntitiesOnly (s ++ e) := by
  induction s with
  | nil => exact h
  | cons c s ih =>
    rw [List.mem_cons, not_or] at hs
    exact (ih hs.2).cons fun hc => absurd hc.symm hs.1

theorem Spells.entitiesOnly (h : Spells e t) : EntitiesOnly e := by
  induction h with
  | nil => exact fun before after heq => absurd heq (by simp)
  | plain _ hentity _ ih =>
    exact ih.cons fun hc => absurd hc (isEntity_eq_false_iff.mp hentity).1
  | pair hc _ ih =>
    have hentity := isEntity_eq_false_of_isBackslashed hc
    exact (ih.cons fun hc => absurd hc (isEntity_eq_false_iff.mp hentity).1).cons
      fun hc => absurd hc (by decide)
  | @entity c e t hc _ ih =>
    have htail : ∃ tail ∈ entityTails, escapeEntity c = '&' :: tail ∧ '&' ∉ tail := by
      rcases isEntity_iff.mp hc with rfl | rfl | rfl
      · exact ⟨"amp;", by decide, rfl, by decide⟩
      · exact ⟨"lt;", by decide, rfl, by decide⟩
      · exact ⟨"gt;", by decide, rfl, by decide⟩
    obtain ⟨tail, hmem, heq, hfree⟩ := htail
    rw [heq]
    exact (ih.append hfree).cons fun _ => ⟨tail, hmem, List.prefix_append tail e⟩

/-! ## Hyphens -/

theorem NoRule.cons (h : NoRule e) (hc : c = '-' → ¬ ['-', '-'] <+: e) : NoRule (c :: e) := by
  intro hrule
  rcases List.infix_cons_iff.mp hrule with hstart | hrule
  · obtain ⟨rfl, hrun⟩ := List.cons_prefix_cons.mp hstart
    exact hc rfl hrun
  · exact h hrule

theorem NoRule.cons_of_ne (h : NoRule e) (hc : c ≠ '-') : NoRule (c :: e) :=
  h.cons fun heq => absurd heq hc

/-- A hyphen that starts an escaped text starts the text itself, and continues no run. -/
theorem exists_of_prefix_escapeHyphens {inRun : Bool}
    (h : '-' :: e <+: escapeHyphens inRun t) :
    inRun = false ∧ ∃ t', t = '-' :: t' ∧ e <+: escapeHyphens false t' := by
  cases t with
  | nil => exact absurd (List.prefix_nil.mp h) (List.cons_ne_nil _ _)
  | cons c t =>
    rw [escapeHyphens] at h
    split at h
    · rename_i hc
      subst hc
      split at h
      · exact absurd (List.cons_prefix_cons.mp h).1 (by decide)
      · rename_i hrun
        rw [Bool.or_eq_true, not_or, Bool.not_eq_true] at hrun
        exact ⟨hrun.1, t, rfl, (List.cons_prefix_cons.mp h).2⟩
    · rename_i hc
      exact absurd (List.cons_prefix_cons.mp h).1.symm hc

theorem noRule_escapeHyphens (inRun : Bool) (t : Text) : NoRule (escapeHyphens inRun t) := by
  induction t generalizing inRun with
  | nil => exact fun h => absurd (List.infix_nil.mp h) (List.cons_ne_nil _ _)
  | cons c t ih =>
    rw [escapeHyphens]
    split
    · split
      · refine ((ih true).cons fun _ hprefix => ?_).cons_of_ne (by decide)
        exact absurd (exists_of_prefix_escapeHyphens hprefix).1 (by decide)
      · rename_i hrun
        rw [Bool.or_eq_true, not_or] at hrun
        refine (ih false).cons fun _ hprefix => hrun.2 ?_
        -- two hyphens behind this one would be two hyphens of the text itself
        obtain ⟨-, t', rfl, hprefix'⟩ := exists_of_prefix_escapeHyphens hprefix
        obtain ⟨-, t'', heq, -⟩ := exists_of_prefix_escapeHyphens hprefix'
        rw [heq]
        rfl
    · rename_i hc
      exact (ih false).cons_of_ne hc

/-- Entities have no hyphens, and put none next to each other. -/
theorem prefix_of_prefix_flatMap_escapeEntity {run : Text} (hrun : ∀ c ∈ run, c = '-')
    (h : run <+: e.flatMap escapeEntity) : run <+: e := by
  induction run generalizing e with
  | nil => exact List.nil_prefix
  | cons c run ih =>
    obtain ⟨rfl, hrest⟩ := List.forall_mem_cons.mp hrun
    cases e with
    | nil => exact h
    | cons d e =>
      rw [List.flatMap_cons] at h
      cases hd : isEntity d with
      | true =>
        have hhead : ∃ tail, escapeEntity d = '&' :: tail := by
          rcases isEntity_iff.mp hd with rfl | rfl | rfl <;> exact ⟨_, rfl⟩
        obtain ⟨tail, heq⟩ := hhead
        rw [heq, List.cons_append] at h
        exact absurd (List.cons_prefix_cons.mp h).1 (by decide)
      | false =>
        rw [escapeEntity_of_not_isEntity hd, List.singleton_append] at h
        obtain ⟨rfl, htail⟩ := List.cons_prefix_cons.mp h
        exact List.cons_prefix_cons.mpr ⟨rfl, ih hrest htail⟩

theorem NoRule.append (h : NoRule e) {s : Text} (hs : '-' ∉ s) : NoRule (s ++ e) := by
  induction s with
  | nil => exact h
  | cons c s ih =>
    rw [List.mem_cons, not_or] at hs
    exact (ih hs.2).cons_of_ne (Ne.symm hs.1)

theorem NoRule.of_cons (h : NoRule (c :: e)) : NoRule e := fun hrule =>
  h (hrule.trans (List.suffix_cons c e).isInfix)

theorem NoRule.flatMap_escapeEntity (h : NoRule e) : NoRule (e.flatMap escapeEntity) := by
  induction e with
  | nil => exact h
  | cons c e ih =>
    rw [List.flatMap_cons]
    cases hc : isEntity c with
    | true =>
      refine (ih h.of_cons).append ?_
      rcases isEntity_iff.mp hc with rfl | rfl | rfl <;> decide
    | false =>
      rw [escapeEntity_of_not_isEntity hc]
      refine (ih h.of_cons).cons ?_
      rintro rfl hprefix
      have hrun : ['-', '-'] <+: e :=
        prefix_of_prefix_flatMap_escapeEntity (by simp) hprefix
      exact h (List.cons_prefix_cons.mpr ⟨rfl, hrun⟩).isInfix

theorem noRule_escape (t : Text) : NoRule (escape t) :=
  (noRule_escapeHyphens false _).flatMap_escapeEntity

/-! ## Escaping is safe and can be undone -/

theorem showsNoMarkup_escape (t : Text) : ShowsNoMarkup (escape t) where
  not_mem_tokens c hc hmem := by
    have hspecial : markup.all isSpecial = true := rfl
    have hplain := (spells_escape t).isSpecial_eq_false hmem
    rw [List.all_eq_true.mp hspecial c hc] at hplain
    cases hplain
  not_mem_angle := (spells_escape t).not_mem_angle
  noRule := noRule_escape t
  entitiesOnly := (spells_escape t).entitiesOnly

theorem unescape_escape_append (hp : ∀ c, isBackslashed c = true → p c = true) (t rest : Text) :
    unescape p (escape t ++ rest) = t ++ unescape p rest :=
  (spells_escape t).unescape_append hp rest

/-- Escaped text shows no markup, one pass reads it back, and so no two texts are escaped to the
same. -/
theorem escape_safe_and_reversible :
    (∀ t, ShowsNoMarkup (escape t) ∧ unescape (fun _ => true) (escape t) = t) ∧
      Function.Injective escape := by
  have hread : ∀ t, unescape (fun _ => true) (escape t) = t := by
    intro t
    have happend := unescape_escape_append (p := fun _ => true) (fun _ _ => rfl) t []
    rwa [List.append_nil, unescape, List.append_nil] at happend
  refine ⟨fun t => ⟨showsNoMarkup_escape t, hread t⟩, fun s t heq => ?_⟩
  rw [← hread s, ← hread t, heq]

example : escape "a\\---&lt;|b" = ("a\\\\\\-\\-\\-&amp;lt;\\|b" : Text) := by
  decide

end ApiReference.Markdown
