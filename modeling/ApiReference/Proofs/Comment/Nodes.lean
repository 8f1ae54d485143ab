import ApiReference.Comment.Parse
import ApiReference.Proofs.Markdown.Resolve

/-!
# The nodes of comments

Whatever a comment says, each of its sections is made of paragraphs of text, code and
links, and of fenced code with a language (`IsRead`).  These may stand on a page
(`Written`).  The links written out in a comment are addresses with a scheme; all
others are references.
-/

namespace ApiReference.Comment

open Doc Markdown

variable {c : Comment} {b : Block} {draft : Draft} {lines : List Text}

/-- A link that is written out in a comment. -/
def IsAddress (url : Text) : Prop := Text.includes "://" url = true

/-- The nodes of a section of a comment. -/
abbrev Written (ns : List Node) : Prop := Fit (PageLeaf IsAddress) .body ns

abbrev WrittenInline (ns : List Node) : Prop := Fit (PageLeaf IsAddress) .paragraph ns

/-- What a line of a comment is made of: text, code and links. -/
def IsInline (n : Node) : Prop :=
  Grammar.inline.contains n.kind = true ∧ PageLeaf IsAddress n

/-- What a section of a comment is made of: paragraphs of lines, and code with a language. -/
def IsRead : Node → Prop
  | .paragraph ns => ∀ n ∈ ns, IsInline n
  | .fencedCode _ language => opensFence language = true
  | _ => False

theorem IsInline.isLeaf {n : Node} (h : IsInline n) : n.isLeaf = true := by
  obtain ⟨hkind, _⟩ := h
  cases n <;> first | rfl | cases hkind

theorem writtenInline_of_isInline {ns : List Node} (h : ∀ n ∈ ns, IsInline n) :
    WrittenInline ns := by
  have hallowed : ∀ kind ∈ Grammar.inline, Grammar.standard.allows .paragraph kind = true := by
    decide
  intro n hn
  exact ⟨hallowed _ (List.contains_iff_mem.mp (h n hn).1), .leaf (h n hn).isLeaf (h n hn).2⟩

/-- What is read in a comment may stand on a page. -/
theorem written_of_isRead {ns : List Node} (h : ∀ n ∈ ns, IsRead n) : Written ns := by
  intro n hn
  have hread := h n hn
  unfold IsRead at hread
  split at hread
  · exact ⟨rfl, Sound.paragraph_iff.mpr (writtenInline_of_isInline hread)⟩
  · exact ⟨rfl, .leaf rfl hread⟩
  · exact hread.elim

/-! ## Lines -/

theorem isInline_linkOf (body : Text) : IsInline (linkOf body) := by
  unfold linkOf
  dsimp only
  split
  · rename_i haddress
    exact ⟨rfl, haddress⟩
  · split
    · exact ⟨rfl, trivial⟩
    · exact ⟨rfl, trivial⟩

theorem isInline_tagNodes (name body : Text) : ∀ n ∈ tagNodes name body, IsInline n := by
  unfold tagNodes
  split
  · exact List.forall_mem_singleton.mpr (isInline_linkOf body)
  · exact List.forall_mem_nil _

theorem isInline_inlineTag? {text : Text} {found : List Node × Text}
    (h : inlineTag? text = some found) : ∀ n ∈ found.1, IsInline n := by
  unfold inlineTag? at h
  dsimp only at h
  split at h
  · cases h
  · split at h
    · cases h
    · split at h
      · cases h
        exact isInline_tagNodes _ _
      · split at h
        · obtain ⟨after, _, rfl⟩ := Option.map_eq_some_iff.mp h
          exact isInline_tagNodes _ _
        · cases h

theorem isInline_special? {text : Text} {found : List Node × Text}
    (h : special? text = some found) : ∀ n ∈ found.1, IsInline n := by
  unfold special? at h
  split at h
  · exact isInline_inlineTag? h
  · dsimp only at h
    split at h
    · cases h
    · obtain ⟨after, _, rfl⟩ := Option.map_eq_some_iff.mp h
      exact List.forall_mem_singleton.mpr ⟨rfl, trivial⟩
  · split at h
    · cases h
      exact List.forall_mem_singleton.mpr ⟨rfl, trivial⟩
    · cases h
  · cases h

theorem isInline_plainNodes (collected : Text) : ∀ n ∈ plainNodes collected, IsInline n := by
  unfold plainNodes
  split
  · exact List.forall_mem_nil _
  · exact List.forall_mem_singleton.mpr ⟨rfl, trivial⟩

theorem isInline_inlineFrom (collected text : Text) :
    ∀ n ∈ inlineFrom collected text, IsInline n := by
  fun_induction inlineFrom collected text with
  | case1 collected text found hfound ih =>
    refine List.forall_mem_append.mpr ⟨List.forall_mem_append.mpr ⟨?_, ?_⟩, ih⟩
    · exact isInline_plainNodes collected
    · exact isInline_special? hfound
  | case2 collected => exact isInline_plainNodes collected
  | case3 collected c rest _ ih => exact ih

/-! ## Sections -/

theorem isInline_paragraphNodes (lines : List Text) :
    ∀ n ∈ paragraphNodes lines, IsInline n := by
  fun_induction paragraphNodes lines with
  | case1 => exact List.forall_mem_nil _
  | case2 line => exact isInline_inlineFrom [] line
  | case3 line lines _ ih =>
    exact List.forall_mem_append.mpr
      ⟨isInline_inlineFrom [] line, List.forall_mem_cons.mpr ⟨⟨rfl, trivial⟩, ih⟩⟩

theorem isRead_close (opened : Open) : ∀ n ∈ opened.close, IsRead n := by
  unfold Open.close
  split
  · exact List.forall_mem_nil _
  · exact List.forall_mem_singleton.mpr (isInline_paragraphNodes _)
  · exact List.forall_mem_singleton.mpr rfl

theorem isRead_sectionFrom (opened : Open) (lines : List Text) :
    ∀ n ∈ sectionFrom opened lines, IsRead n := by
  fun_induction sectionFrom opened lines with
  | case1 opened => exact isRead_close opened
  | case2 line rest language lines _ ih =>
    exact List.forall_mem_append.mpr ⟨isRead_close _, ih⟩
  | case3 line rest language lines _ ih => exact ih
  | case4 line rest lines language _ ih =>
    exact List.forall_mem_append.mpr ⟨isRead_close _, ih⟩
  | case5 line rest lines _ _ ih => exact List.forall_mem_append.mpr ⟨isRead_close _, ih⟩
  | case6 line rest lines _ _ ih => exact ih

theorem isRead_sectionNodes (lines : List Text) : ∀ n ∈ sectionNodes lines, IsRead n :=
  isRead_sectionFrom _ lines

/-! ## Comments -/

/-- What holds of every section of a comment. -/
structure EachSection (p : List Node → Prop) (c : Comment) : Prop where
  summary : p c.summary
  remarks : ∀ b ∈ c.remarks?, p b.content
  deprecated : ∀ b ∈ c.deprecated?, p b.content
  returns : ∀ b ∈ c.returns?, p b.content
  params : ∀ b ∈ c.params, p b.content
  custom : ∀ b ∈ c.custom, p b.content

namespace EachSection

variable {p : List Node → Prop} (hp : ∀ lines, p (sectionNodes lines))
include hp

theorem paramBlock (draft : Draft) : p (paramBlock draft).content := by
  unfold Comment.paramBlock
  split
  · exact hp _
  · split
    · exact hp _
    · exact hp _

/-- One more block is made of lines too. -/
theorem addDraft (h : EachSection p c) (draft : Draft) : EachSection p (addDraft c draft) := by
  have hblock : ∀ b ∈ some (Block.mk draft.tag (sectionNodes draft.lines)), p b.content := by
    intro b hb
    rw [← Option.some.inj (Option.mem_def.mp hb)]
    exact hp draft.lines
  unfold Comment.addDraft
  dsimp only
  split
  · refine { h with params := ?_ }
    refine List.forall_mem_append.mpr ⟨h.params, ?_⟩
    rintro b hb
    rw [List.mem_singleton.mp hb]
    exact paramBlock hp draft
  · split
    · exact { h with remarks := hblock }
    · split
      · exact { h with deprecated := hblock }
      · split
        · exact { h with returns := hblock }
        · refine { h with custom := ?_ }
          refine List.forall_mem_append.mpr ⟨h.custom, ?_⟩
          rintro b hb
          rw [List.mem_singleton.mp hb]
          exact hp draft.lines

theorem foldl_addDraft (h : EachSection p c) (drafts : List Draft) :
    EachSection p (drafts.foldl Comment.addDraft c) := by
  induction drafts generalizing c with
  | nil => exact h
  | cons draft drafts ih => exact ih (h.addDraft hp draft)

end EachSection

/-- A comment whose sections are made of what is read in comments. -/
abbrev AsRead (c : Comment) : Prop := EachSection (fun ns => ∀ n ∈ ns, IsRead n) c

/-- Every comment that is read is made of what is read in comments. -/
theorem asRead_ofReading (r : Reading) : AsRead (ofReading r) := by
  have hempty : ∀ summary modifiers, (∀ n ∈ summary, IsRead n) →
      AsRead { empty with summary := summary, modifiers := modifiers } := by
    intro summary modifiers hsummary
    exact ⟨hsummary, by simp [empty], by simp [empty], by simp [empty], by simp [empty],
      by simp [empty]⟩
  unfold ofReading
  split
  · exact hempty [] [] (List.forall_mem_nil _)
  · exact (hempty _ _ (isRead_sectionNodes _)).foldl_addDraft isRead_sectionNodes _

theorem asRead_of_ofDocument {config raw : Json}
    (h : (ofDocument config raw).outcome = .ok c) : AsRead c := by
  rw [ofDocument, Traced.outcome_bind] at h
  obtain ⟨v, _, h⟩ := bind_eq_ok.mp h
  rw [Traced.outcome_bind] at h
  obtain ⟨text, _, h⟩ := bind_eq_ok.mp h
  have hparse : c = (parse v text).value := (Except.ok.inj h).symm
  rw [hparse]
  exact asRead_ofReading _

/-- A comment all of whose sections are made of nodes of comments. -/
structure Sound (c : Comment) : Prop where
  summary : Written c.summary
  remarks : ∀ b ∈ c.remarks?, Written b.content
  deprecated : ∀ b ∈ c.deprecated?, Written b.content
  returns : ∀ b ∈ c.returns?, Written b.content
  params : ∀ b ∈ c.params, Written b.content
  custom : ∀ b ∈ c.custom, Written b.content

theorem AsRead.sound (h : AsRead c) : Sound c where
  summary := written_of_isRead h.summary
  remarks b hb := written_of_isRead (h.remarks b hb)
  deprecated b hb := written_of_isRead (h.deprecated b hb)
  returns b hb := written_of_isRead (h.returns b hb)
  params b hb := written_of_isRead (h.params b hb)
  custom b hb := written_of_isRead (h.custom b hb)

end ApiReference.Comment
