import ApiReference.Proofs.Comment.Nodes
import ApiReference.Proofs.Comment.Passages
import ApiReference.Proofs.Markdown.Pipes
import ApiReference.Proofs.Markdown.Writer

/-!
# Code blocks are read back

A code block that is read in a section has a language that a fence can name, and none of
its lines would close it (`Fenced`).  On a page it stands between fences again, without
the line breaks at its end (`emit_fencedCode`).  What is left of its code has no other
lines than before, apart from an empty one, so that the section that is read on the page
is that block again (`codeBlock_reread`).
-/

namespace ApiReference.Comment

open Doc Text

variable {opened : Open} {language : Text} {code lines : List Text}

/-- What is known of a code block: a fence can name its language, and it is made of lines that do
not close it. -/
structure Fenced (language : Text) (code : List Text) : Prop where
  named : language.all isLanguageChar = true
  oneLine : ∀ l ∈ code, OneLine l
  not_fence : ∀ l ∈ code, isFenceLine l = false

namespace Fenced

theorem nil (named : language.all isLanguageChar = true) : Fenced language [] :=
  ⟨named, List.forall_mem_nil _, List.forall_mem_nil _⟩

theorem concat {line : Text} (h : Fenced language code) (hline : OneLine line)
    (hfence : isFenceLine line = false) : Fenced language (code ++ [line]) where
  named := h.named
  oneLine := List.forall_mem_append.mpr ⟨h.oneLine, List.forall_mem_singleton.mpr hline⟩
  not_fence := List.forall_mem_append.mpr ⟨h.not_fence, List.forall_mem_singleton.mpr hfence⟩

end Fenced

/-- What is known of the block that is open, if it is one of code. -/
def Open.Fenced : Open → Prop
  | .prose _ => True
  | .code language code => Comment.Fenced language code

/-- A node that is a code block if it is code. -/
def IsBlock (n : Node) : Prop :=
  n.kind = .fencedCode → ∃ language code, n = codeBlock language code ∧ Fenced language code

theorem language_of_fenceLanguage? {line : Text} (h : fenceLanguage? line = some language) :
    language.all isLanguageChar = true := by
  unfold fenceLanguage? at h
  split at h
  · cases h
  · dsimp only at h
    split at h
    · cases h
      assumption
    · cases h

theorem isBlock_close (h : opened.Fenced) : ∀ n ∈ opened.close, IsBlock n := by
  unfold Open.close
  split
  · exact List.forall_mem_nil _
  · exact List.forall_mem_singleton.mpr fun hkind => nomatch hkind
  · exact List.forall_mem_singleton.mpr fun _ => ⟨_, _, rfl, h⟩

theorem isBlock_sectionFrom (opened : Open) (lines : List Text) (hopened : opened.Fenced)
    (h : ∀ l ∈ lines, OneLine l) : ∀ n ∈ sectionFrom opened lines, IsBlock n := by
  fun_induction sectionFrom opened lines with
  | case1 opened => exact isBlock_close hopened
  | case2 line rest language code _ ih =>
    exact List.forall_mem_append.mpr
      ⟨isBlock_close hopened, ih trivial (List.forall_mem_cons.mp h).2⟩
  | case3 line rest language code hfence ih =>
    obtain ⟨hline, hrest⟩ := List.forall_mem_cons.mp h
    exact ih (hopened.concat hline (Bool.eq_false_iff.mpr hfence)) hrest
  | case4 line rest lines language hlanguage ih =>
    exact List.forall_mem_append.mpr ⟨isBlock_close hopened,
      ih (.nil (language_of_fenceLanguage? hlanguage)) (List.forall_mem_cons.mp h).2⟩
  | case5 line rest lines _ _ ih =>
    exact List.forall_mem_append.mpr
      ⟨isBlock_close hopened, ih trivial (List.forall_mem_cons.mp h).2⟩
  | case6 line rest lines _ _ ih => exact ih trivial (List.forall_mem_cons.mp h).2

/-- The code blocks of a section, one by one. -/
theorem isBlock_sectionNodes (h : ∀ l ∈ lines, OneLine l) : ∀ n ∈ sectionNodes lines, IsBlock n :=
  isBlock_sectionFrom _ lines trivial h

theorem oneLine_fence : OneLine fence := ⟨by decide, by decide⟩

/-- A language that a fence can name has no line breaks. -/
theorem oneLine_language (named : language.all isLanguageChar = true) : OneLine language := by
  have hblank := isBlank_eq_false_of_mem_language named
  constructor
  · exact fun h => absurd (hblank _ h) (by decide)
  · exact fun h => absurd (hblank _ h) (by decide)

/-- Code between fences is one block. -/
theorem sectionNodes_fenced (h : Fenced language code) :
    sectionNodes ((fence ++ language) :: (code ++ [fence, []])) = [codeBlock language code] := by
  rw [sectionNodes, sectionFrom, fenceLanguage?_fence h.named]
  dsimp only
  rw [sectionFrom_code h.not_fence language [] isFenceLine_self]
  rfl

end ApiReference.Comment

namespace ApiReference.Markdown

open Doc Text Emission

variable {code language t : Text} {lines : List Text}

/-! ## Line breaks at the end -/

/-- What is left of a code without the line breaks at its end, and these. -/
theorem exists_trimNewlines_append (h : '\r' ∉ t) :
    ∃ k, t = trimNewlines t ++ List.replicate k '\n' := by
  have hfeeds : ∀ c ∈ t.rtakeWhile isNewline, c = '\n' := by
    intro c hc
    have hnewline : isNewline c = true := List.mem_rtakeWhile_imp hc
    have hmem : c ∈ t := (List.rtakeWhile_suffix isNewline t).subset hc
    rw [isNewline, Bool.or_eq_true, beq_iff_eq, beq_iff_eq] at hnewline
    exact hnewline.resolve_right fun hreturn => h (hreturn ▸ hmem)
  refine ⟨(t.rtakeWhile isNewline).length, ?_⟩
  rw [← List.eq_replicate_of_mem hfeeds, trimNewlines_eq_rdropWhile,
    List.rdropWhile_append_rtakeWhile]

theorem getLast?_trimNewlines (t : Text) : (trimNewlines t).getLast? ≠ some '\n' := by
  rw [trimNewlines_eq_rdropWhile]
  intro h
  have hne : t.rdropWhile isNewline ≠ [] := List.getLast?_isSome.mp (by rw [h]; rfl)
  rw [List.getLast?_eq_some_getLast hne, Option.some.injEq] at h
  exact List.rdropWhile_last_not isNewline t hne (by rw [h]; rfl)

theorem trimNewlines_concat (t : Text) : trimNewlines (t ++ ['\n']) = trimNewlines t :=
  List.rdropWhile_concat_pos isNewline t '\n' rfl

/-- The lines of joined lines, of which there is an empty one if there were none. -/
theorem mem_of_mem_splitAt_join (h : ∀ l ∈ lines, OneLine l) {piece : Text}
    (hpiece : piece ∈ splitAt '\n' (join ['\n'] lines)) : piece ∈ [] :: lines := by
  by_cases hne : lines = []
  · rw [hne] at hpiece ⊢
    exact hpiece
  · rw [splitAt_join (fun l hl => (h l hl).1) hne] at hpiece
    exact List.mem_cons_of_mem _ hpiece

/-- Without line breaks at its end, code has no other lines than before. -/
theorem mem_splitAt_of_mem_trimNewlines (h : '\r' ∉ t) {piece : Text}
    (hpiece : piece ∈ splitAt '\n' (trimNewlines t)) : piece ∈ splitAt '\n' t := by
  obtain ⟨k, hk⟩ := exists_trimNewlines_append h
  rw [hk]
  cases k with
  | zero => rwa [List.replicate_zero, List.append_nil]
  | succ k =>
    rw [List.replicate_succ, splitAt_append_cons]
    exact List.mem_append_left _ hpiece

section Block

variable (h : Comment.Fenced language lines)
include h

theorem return_not_mem_join : '\r' ∉ join ['\n'] lines :=
  not_mem_join (by decide) fun l hl => (h.oneLine l hl).2

/-- A block stays one when the line breaks at the end of its code are taken off. -/
theorem fenced_trimNewlines :
    Comment.Fenced language (splitAt '\n' (trimNewlines (join ['\n'] lines))) := by
  have hlines : ∀ piece ∈ splitAt '\n' (trimNewlines (join ['\n'] lines)), piece ∈ [] :: lines :=
    fun piece hpiece => mem_of_mem_splitAt_join h.oneLine
      (mem_splitAt_of_mem_trimNewlines (return_not_mem_join h) hpiece)
  refine ⟨h.named, fun piece hpiece => ?_, fun piece hpiece => ?_⟩
  · rcases List.mem_cons.mp (hlines piece hpiece) with rfl | hmem
    · exact .nil
    · exact h.oneLine piece hmem
  · rcases List.mem_cons.mp (hlines piece hpiece) with rfl | hmem
    · rfl
    · exact h.not_fence piece hmem

/-- The code of a block ends with a line break. -/
theorem exists_codeBlock_eq : ∃ k, Comment.codeBlock language lines =
    .fencedCode (trimNewlines (join ['\n'] lines) ++ List.replicate (k + 1) '\n')
      (.text language) := by
  obtain ⟨k, hk⟩ := exists_trimNewlines_append (return_not_mem_join h)
  refine ⟨k, ?_⟩
  rw [List.replicate_succ', ← List.append_assoc, ← hk]
  rfl

end Block

/-! ## On a page -/

/-- Code between fences, each of them on its own line. -/
def fencedText (code language : Text) : Text :=
  (fence ++ language) ++ '\n' :: (code ++ '\n' :: (fence ++ ['\n']))

/-- The writer after code that nothing stands in front of. -/
def codeWriter (code language : Text) : Writer :=
  ((Writer.empty.write fence).write language).newline.write (trimNewlines code)
    |>.newline.writeLine fence

theorem text_codeWriter (code : Text) (hlanguage : OneLine language) :
    (codeWriter code language).text = fencedText (unifyNewlines (trimNewlines code)) language := by
  have hempty : Writer.empty.text = [] := rfl
  have hindents : Writer.empty.indents = [] := rfl
  have hfence : unifyNewlines fence = fence := unifyNewlines_eq Comment.oneLine_fence
  unfold codeWriter Writer.writeLine
  simp only [Writer.text_newline, Writer.text_write, Writer.indents_newline, Writer.indents_write,
    hindents, hempty, hfence, unifyNewlines_eq hlanguage]
  simp only [fencedText, List.nil_append, List.append_assoc, List.cons_append]

/-- Code is written between fences, without the line breaks at its end. -/
theorem emit_fencedCode (resolver? : Option Resolver) (hlanguage : OneLine language)
    (code : Text) : emit resolver? (.fencedCode code (.text language)) =
      pure (fencedText (unifyNewlines (trimNewlines code)) language) := by
  have hlinked : linked resolver? (.fencedCode code (.text language)) =
      pure (.fencedCode code (.text language)) := rfl
  have htrimmed : (Node.fencedCode code (.text language)).trimmed =
      .fencedCode code (.text language) := rfl
  have hwritten : write false (.fencedCode code (.text language)) .initial =
      { Emission.initial with writer := codeWriter code language } := by
    rw [write]
    rfl
  have hend : (codeWriter code language).ensureNewLine = codeWriter code language :=
    Writer.ensureNewLine_newline _
  rw [emit, hlinked, pure_bind, render, htrimmed, hwritten, hend, text_codeWriter code hlanguage]

/-- Code between fences is one block for a reader of its lines. -/
theorem sectionNodes_fencedText (h : Comment.Fenced language (splitAt '\n' code)) :
    Comment.sectionNodes (splitAt '\n' (fencedText code language)) =
      [.fencedCode (code ++ ['\n']) (.text language)] := by
  have hopening : '\n' ∉ fence ++ language :=
    (Comment.oneLine_fence.append (Comment.oneLine_language h.named)).1
  have hlines : splitAt '\n' (fencedText code language) =
      (fence ++ language) :: (splitAt '\n' code ++ [fence, []]) := by
    rw [fencedText, splitAt_append_cons, splitAt_append_cons]
    exact congrArg (· ++ _) (splitAt_of_not_mem hopening)
  rw [hlines, Comment.sectionNodes_fenced h, Comment.codeBlock, join_splitAt]

/-- Code blocks survive from a comment to a page: the section that is read from the lines of what is
written of a code block is that block again, with one line break at the end of its code. -/
theorem codeBlock_reread (resolver? : Option Resolver) (h : ∀ l ∈ lines, OneLine l) {n : Node}
    (hn : n ∈ Comment.sectionNodes lines) (hkind : n.kind = .fencedCode) :
    ∃ language code k text,
      n = .fencedCode (code ++ List.replicate (k + 1) '\n') (.text language) ∧
      code.getLast? ≠ some '\n' ∧
      emit resolver? n = pure text ∧
      Comment.sectionNodes (splitAt '\n' text) =
        [.fencedCode (code ++ ['\n']) (.text language)] := by
  obtain ⟨language, block, rfl, hblock⟩ := Comment.isBlock_sectionNodes h n hn hkind
  obtain ⟨k, hk⟩ := exists_codeBlock_eq hblock
  refine ⟨language, trimNewlines (join ['\n'] block), k, _, hk, getLast?_trimNewlines _,
    emit_fencedCode resolver? (Comment.oneLine_language hblock.named) _, ?_⟩
  -- The reader finds the code as it was: nothing in it was a carriage return.
  have hreturn : '\r' ∉ trimNewlines (join ['\n'] block) := fun hmem =>
    return_not_mem_join hblock ((List.rdropWhile_prefix isNewline _).subset hmem)
  rw [trimNewlines_concat, unifyNewlines_of_not_mem hreturn]
  exact sectionNodes_fencedText (fenced_trimNewlines hblock)

/-- Code with an empty line at each of its ends and a fence inside a line. -/
def shellLines : List Text :=
  ["  \x60\x60\x60 sh", "", "echo \x60\x60\x60", "", "\x60\x60\x60"]

def shellBlock : Node := .fencedCode "\necho \x60\x60\x60\n\n" (.text "sh")

theorem codeBlock_reread_shell :
    ∃ language code k text,
      shellBlock = .fencedCode (code ++ List.replicate (k + 1) '\n') (.text language) ∧
      code.getLast? ≠ some '\n' ∧
      emit none shellBlock = pure text ∧
      Comment.sectionNodes (splitAt '\n' text) =
        [.fencedCode (code ++ ['\n']) (.text language)] := by
  have hlines : ∀ l ∈ shellLines, OneLine l := by
    unfold OneLine
    decide +kernel
  have hsection : Comment.sectionNodes shellLines = [shellBlock] := rfl
  exact codeBlock_reread none hlines (hsection ▸ List.mem_singleton_self _) rfl

end ApiReference.Markdown
