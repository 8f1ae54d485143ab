import ApiReference.Proofs.Comment.Parts
import ApiReference.Proofs.Comment.RoundTrip

/-!
# Code in the reading of a comment and in its sections

Two passes look for fences: the reading of the lines, to leave the tags in code alone,
and the sections of the blocks, to tell code from prose.  They agree about a comment if
every line that is read outside of code opens code for both of them or for neither
(`fencesApart`): then a section ends in code whenever the reading is inside a fence
(`Agrees`), one line keeps this (`Agrees.readLine`), and so each line that is recorded
is a line of code exactly if it was read as one (`fences_agree`).
-/

namespace ApiReference.Comment

open Doc Text

variable {v : Vocabulary} {r r' r'' : Reading} {line kept text name rest spelling : Text}
  {before : List Text}

/-! ## One line of the reading -/

/-- The reading behind the tags of a line, and what is recorded of the line in its last draft. -/
def taken (v : Vocabulary) (r : Reading) (line : Text) : Reading × Option Text :=
  if isFenceLine line then ({ r with fenced := !r.fenced }, some line)
  else if r.fenced then (r, some line)
  else
    let found := (readTags v r (trim line)).value
    (found.1, if found.2.isEmpty && !allBlank line then none else some found.2)

theorem readLine_value (v : Vocabulary) (r : Reading) (line : Text) :
    (readLine v r line).value =
      (taken v r line).2.elim (taken v r line).1 (taken v r line).1.addLine := by
  unfold readLine taken
  split
  · rfl
  · split
    · rfl
    · dsimp only [Noted.value_bind, Noted.value_pure]
      split
      · rfl
      · rfl

theorem taken_fence (h : isFenceLine line = true) :
    taken v r line = ({ r with fenced := !r.fenced }, some line) := if_pos h

theorem taken_code (h : isFenceLine line = false) (hr : r.fenced = true) :
    taken v r line = (r, some line) := by
  rw [taken, if_neg (by simp [h]), if_pos hr]

/-- Only a line of text may leave nothing to be recorded. -/
theorem text_of_taken (h : (taken v r line).2 = none) :
    isFenceLine line = false ∧ r.fenced = false := by
  cases hfence : isFenceLine line with
  | true =>
    rw [taken_fence hfence] at h
    cases h
  | false =>
    cases hr : r.fenced with
    | true =>
      rw [taken_code hfence hr] at h
      cases h
    | false => exact ⟨rfl, rfl⟩

theorem taken_text (h : isFenceLine line = false) (hr : r.fenced = false) :
    (taken v r line).1 = (readTags v r (trim line)).value.1 := by
  rw [taken, if_neg (by simp [h]), if_neg (by simp [hr])]

/-! ## What is read later -/

/-- A reading that goes on where another one stopped: drafts only grow at their end, and modifiers
are kept. -/
structure Reading.Continues (r r' : Reading) : Prop where
  closed : r.closed <+: r'.closed
  /-- What was the last draft is still there, with all its lines. -/
  current : ∃ d, r'.drafts[r.closed.length]? = some d ∧ d.tag = r.current.tag ∧
    r.current.lines <+: d.lines
  modifiers : r.modifiers ⊆ r'.modifiers

namespace Reading.Continues

theorem of_current (hclosed : r'.closed = r.closed) (htag : r'.current.tag = r.current.tag)
    (hlines : r.current.lines <+: r'.current.lines) (hmodifiers : r.modifiers ⊆ r'.modifiers) :
    r.Continues r' := by
  refine ⟨hclosed ▸ List.prefix_rfl, ⟨r'.current, ?_, htag, hlines⟩, hmodifiers⟩
  rw [← hclosed, drafts, List.getElem?_append_right le_rfl, Nat.sub_self]
  rfl

theorem refl (r : Reading) : r.Continues r :=
  of_current rfl rfl List.prefix_rfl (List.Subset.refl _)

theorem addLine (r : Reading) (line : Text) : r.Continues (r.addLine line) :=
  of_current rfl rfl (List.prefix_append _ _) (List.Subset.refl _)

theorem addModifier (r : Reading) (spelling : Text) : r.Continues (r.addModifier spelling) := by
  unfold Reading.addModifier
  split
  · exact refl r
  · exact of_current rfl rfl List.prefix_rfl (List.subset_append_left _ _)

theorem openBlock (r : Reading) (tag : Text) : r.Continues (r.openBlock tag) := by
  refine ⟨List.prefix_append _ _, ⟨r.current, ?_, rfl, List.prefix_rfl⟩, List.Subset.refl _⟩
  rw [drafts, Reading.openBlock, List.getElem?_append_left (by simp),
    List.getElem?_append_right le_rfl, Nat.sub_self]
  rfl

theorem trans (h : r.Continues r') (h' : r'.Continues r'') : r.Continues r'' := by
  refine ⟨h.closed.trans h'.closed, ?_, List.Subset.trans h.modifiers h'.modifiers⟩
  obtain ⟨d, hd, htag, hlines⟩ := h.current
  rcases h.closed.length_le.lt_or_eq with hlt | heq
  · -- the draft was closed meanwhile
    rw [drafts, List.getElem?_append_left hlt] at hd
    obtain ⟨more, hmore⟩ := h'.closed
    refine ⟨d, ?_, htag, hlines⟩
    rw [drafts, ← hmore, List.append_assoc, List.getElem?_append_left hlt, hd]
  · rw [drafts, heq, List.getElem?_append_right le_rfl, Nat.sub_self] at hd
    obtain rfl := Option.some.inj hd
    obtain ⟨d', hd', htag', hlines'⟩ := h'.current
    exact ⟨d', heq ▸ hd', htag'.trans htag, hlines.trans hlines'⟩

end Reading.Continues

theorem continues_readTags (v : Vocabulary) (r : Reading) (text : Text) :
    r.Continues (readTags v r text).value.1 := by
  fun_induction readTags v r text with
  | case1 r text htag => exact .refl r
  | case2 r text found htag spelling hm ih => exact (Reading.Continues.addModifier r _).trans ih
  | case3 r text found htag hm hb => exact .openBlock r _
  | case4 r text found htag hm hb => exact .refl r

theorem continues_taken (v : Vocabulary) (r : Reading) (line : Text) :
    r.Continues (taken v r line).1 := by
  unfold taken
  split
  · exact .of_current rfl rfl List.prefix_rfl (List.Subset.refl _)
  · split
    · exact .refl r
    · exact continues_readTags v r _

theorem taken_continues (v : Vocabulary) (r : Reading) (line : Text) :
    (taken v r line).1.Continues (readLine v r line).value := by
  rw [readLine_value]
  cases (taken v r line).2 with
  | none => exact .refl _
  | some kept => exact .addLine _ kept

theorem continues_readLine (v : Vocabulary) (r : Reading) (line : Text) :
    r.Continues (readLine v r line).value :=
  (continues_taken v r line).trans (taken_continues v r line)

theorem continues_readLines (v : Vocabulary) (r : Reading) (lines : List Text) :
    r.Continues (readLines v r lines).value := by
  induction lines generalizing r with
  | nil => exact .refl r
  | cons line lines ih => exact (continues_readLine v r line).trans (ih _)

/-! ## The part that a line becomes -/

def readingOf (v : Vocabulary) (lines : List Text) : Reading := (readLines v .initial lines).value

/-- What a line of a comment is in the section of the block that it is recorded in, if it is
recorded. -/
def partOf (v : Vocabulary) (before : List Text) (line : Text) (after : List Text) : Option Part :=
  let found := taken v (readingOf v before) line
  match found.2 with
  | none => none
  | some _ =>
    ((readingOf v (before ++ line :: after)).drafts[found.1.closed.length]?).bind fun d =>
      d.parts[found.1.current.lines.length]?

theorem readingOf_split (v : Vocabulary) (before : List Text) (line : Text) (after : List Text) :
    readingOf v (before ++ line :: after) =
      (readLines v (readLine v (readingOf v before) line).value after).value := by
  rw [readingOf, readLines_append]
  rfl

theorem continues_readingOf (v : Vocabulary) (before : List Text) (line : Text)
    (after : List Text) :
    (readLine v (readingOf v before) line).value.Continues
      (readingOf v (before ++ line :: after)) := by
  rw [readingOf_split]
  exact continues_readLines v _ after

/-- What a line is in its section is settled when it is recorded. -/
theorem partOf_eq (v : Vocabulary) (before : List Text) (line : Text) (after : List Text) :
    partOf v before line after = (taken v (readingOf v before) line).2.map
      (taken v (readingOf v before) line).1.current.next := by
  have hlater := continues_readingOf v before line after
  rw [readLine_value] at hlater
  unfold partOf
  dsimp only
  cases hkept : (taken v (readingOf v before) line).2 with
  | none => rfl
  | some kept =>
    rw [hkept] at hlater
    obtain ⟨d, hd, htag, hlines⟩ := hlater.current
    obtain ⟨more, hmore⟩ := Draft.parts_prefix htag hlines
    have hparts := (taken v (readingOf v before) line).1.current.length_parts
    have hfound : (readingOf v (before ++ line :: after)).drafts[
        (taken v (readingOf v before) line).1.closed.length]? = some d := hd
    dsimp only
    rw [hfound, Option.bind_some, ← hmore, Option.elim_some, Reading.addLine, Draft.parts_concat,
      List.append_assoc, ← hparts, List.getElem?_append_right le_rfl, Nat.sub_self]
    rfl

/-! ## Fences for both passes -/

/-- The reading is inside a fence exactly if the section of its last draft ends in code. -/
def Reading.Agrees (r : Reading) : Prop := r.fenced = r.current.endsInCode

/-- Whether a line opens code for both passes or for neither. -/
def opensAlike (v : Vocabulary) (r : Reading) (line : Text) : Bool :=
  match (taken v r line).2 with
  | none => true
  | some kept =>
    isFenceLine line == (fenceLanguage? ((taken v r line).1.current.shown kept)).isSome

/-- Whether every line that is read outside of code opens code for both passes or for neither. -/
def fencesApart (v : Vocabulary) : Reading → List Text → Bool
  | _, [] => true
  | r, line :: lines =>
    (r.fenced || opensAlike v r line) && fencesApart v (readLine v r line).value lines

theorem current_addModifier (r : Reading) (spelling : Text) :
    (r.addModifier spelling).current = r.current := by
  unfold Reading.addModifier
  split
  · rfl
  · rfl

theorem fenced_addModifier (r : Reading) (spelling : Text) :
    (r.addModifier spelling).fenced = r.fenced := by
  unfold Reading.addModifier
  split
  · rfl
  · rfl

theorem fenced_readTags (v : Vocabulary) (r : Reading) (text : Text) :
    (readTags v r text).value.1.fenced = r.fenced := by
  fun_induction readTags v r text with
  | case1 r text htag => rfl
  | case2 r text found htag spelling hm ih => exact ih.trans (fenced_addModifier r _)
  | case3 r text found htag hm hb => rfl
  | case4 r text found htag hm hb => rfl

/-- Tags open no code: a draft that they open has no lines yet. -/
theorem endsInCode_readTags (h : r.current.endsInCode = false) :
    (readTags v r text).value.1.current.endsInCode = false := by
  fun_induction readTags v r text with
  | case1 r text htag => exact h
  | case2 r text found htag spelling hm ih => exact ih (by rw [current_addModifier, h])
  | case3 r text found htag hm hb => rfl
  | case4 r text found htag hm hb => exact h

/-- A fence is where being inside a fence changes. -/
theorem fenced_taken (v : Vocabulary) (r : Reading) (line : Text) :
    (taken v r line).1.fenced = if isFenceLine line then !r.fenced else r.fenced := by
  cases hfence : isFenceLine line with
  | true =>
    rw [taken_fence hfence]
    rfl
  | false =>
    cases hr : r.fenced with
    | true =>
      rw [taken_code hfence hr, hr]
      rfl
    | false =>
      rw [taken_text hfence hr, fenced_readTags, hr]
      rfl

namespace Reading.Agrees

/-- Where the passes agree, a line that is recorded is a line of code exactly if it was read as one,
and code goes on behind it unless it is the fence that ends it, or goes on from there if it opens
any. -/
theorem next_taken (h : r.Agrees) (hkept : (taken v r line).2 = some kept) :
    ((taken v r line).1.current.next kept).isCode = (r.fenced && !isFenceLine line) ∧
      ((taken v r line).1.current.next kept).leavesCode =
        if r.fenced then !isFenceLine line
        else (fenceLanguage? ((taken v r line).1.current.shown kept)).isSome := by
  cases hr : r.fenced with
  | true =>
    have hcode : r.current.endsInCode = true := h.symm.trans hr
    cases hfence : isFenceLine line with
    | true =>
      rw [taken_fence hfence] at hkept ⊢
      obtain rfl := Option.some.inj hkept
      rw [Draft.next, Draft.shown_of_endsInCode hcode, hcode, part_true, if_pos hfence]
      exact ⟨rfl, rfl⟩
    | false =>
      rw [taken_code hfence hr] at hkept ⊢
      obtain rfl := Option.some.inj hkept
      rw [Draft.next, Draft.shown_of_endsInCode hcode, hcode, part_true, hfence]
      exact ⟨rfl, rfl⟩
  | false =>
    have hprose : (taken v r line).1.current.endsInCode = false := by
      cases hfence : isFenceLine line with
      | true =>
        rw [taken_fence hfence]
        exact h.symm.trans hr
      | false =>
        rw [taken_text hfence hr]
        exact endsInCode_readTags (h.symm.trans hr)
    rw [Draft.next, hprose, Bool.false_and, if_neg Bool.false_ne_true]
    exact part_false _

/-- The passes stay together behind a line exactly if the line is in code or opens code for both or
for neither. -/
theorem readLine_iff (h : r.Agrees) (v : Vocabulary) (line : Text) :
    (readLine v r line).value.Agrees ↔ (r.fenced || opensAlike v r line) = true := by
  rw [readLine_value, opensAlike]
  cases hkept : (taken v r line).2 with
  | none =>
    obtain ⟨hfence, hr⟩ := text_of_taken hkept
    refine iff_of_true ?_ (Bool.or_true _)
    rw [Option.elim_none, Agrees, taken_text hfence hr, fenced_readTags, hr]
    exact (endsInCode_readTags (h.symm.trans hr)).symm
  | some kept =>
    have hend : (((taken v r line).1.addLine kept).Agrees) ↔
        (taken v r line).1.fenced = ((taken v r line).1.current.next kept).leavesCode := by
      rw [Agrees, Reading.addLine, Draft.endsInCode_concat]
    rw [Option.elim_some, hend, fenced_taken, (h.next_taken hkept).2]
    cases r.fenced with
    | true => cases isFenceLine line <;> simp
    | false => cases isFenceLine line <;> simp

/-- The passes agree all the way through exactly if fences are apart. -/
theorem readLines_iff (h : r.Agrees) (v : Vocabulary) (lines : List Text) :
    fencesApart v r lines = true ↔
      ∀ before after, lines = before ++ after → (readLines v r before).value.Agrees := by
  induction lines generalizing r with
  | nil =>
    refine iff_of_true rfl fun before after hsplit => ?_
    obtain ⟨rfl, -⟩ := List.append_eq_nil_iff.mp hsplit.symm
    exact h
  | cons line lines ih =>
    rw [fencesApart, Bool.and_eq_true, ← h.readLine_iff]
    constructor
    · rintro ⟨hline, hlines⟩ before after hsplit
      cases before with
      | nil => exact h
      | cons first before =>
        obtain ⟨rfl, hrest⟩ := List.cons_eq_cons.mp hsplit
        exact (ih hline).mp hlines before after hrest
    · intro hall
      have hline : (readLine v r line).value.Agrees := hall [line] lines rfl
      refine ⟨hline, (ih hline).mpr fun before after hsplit => ?_⟩
      exact hall (line :: before) after (by rw [hsplit, List.cons_append])

end Reading.Agrees

/-! ## Tags -/

/-- A tag at the start of a line counts: a modifier is set, and the tag of a block opens the next
draft. -/
structure TagCounts (v : Vocabulary) (name : Text) (r final : Reading) : Prop where
  modifier : ∀ spelling, v.modifier? (upper name) = some spelling → spelling ∈ final.modifiers
  block : v.modifier? (upper name) = none → v.isBlock (upper name) = true →
    ∃ d, final.drafts[r.drafts.length]? = some d ∧ d.tag = name

theorem mem_addModifier (r : Reading) (spelling : Text) :
    spelling ∈ (r.addModifier spelling).modifiers := by
  unfold Reading.addModifier
  split
  · rename_i h
    exact List.contains_iff_mem.mp h
  · exact List.mem_append_right _ (List.mem_singleton.mpr rfl)

theorem readTags_modifier (h : tag? text = some (name, rest))
    (hm : v.modifier? (upper name) = some spelling) :
    readTags v r text = readTags v (r.addModifier spelling) rest := by
  rw [readTags]
  split
  · rename_i hnone
    rw [h] at hnone
    cases hnone
  · rename_i found hfound
    rw [h] at hfound
    cases hfound
    rw [hm]

/-- What the tag of a line does is there in whatever is read from then on. -/
theorem TagCounts.of_continues (h : tag? text = some (name, rest))
    (hlater : (readTags v r text).value.1.Continues r') : TagCounts v name r r' where
  modifier spelling hm := by
    rw [readTags_modifier h hm] at hlater
    exact hlater.modifiers ((continues_readTags v _ rest).modifiers (mem_addModifier r spelling))
  block hm hb := by
    rw [readTags_block h hm hb] at hlater
    obtain ⟨d, hd, htag, -⟩ := hlater.current
    exact ⟨d, hd, htag⟩

theorem isFenceLine_of_tag? {found : Text × Text} (h : tag? (trim line) = some found) :
    isFenceLine line = false := by
  obtain ⟨t, ht⟩ := eq_cons_of_tag? h
  rw [isFenceLine, ht]
  rfl

/-! ## Comments -/

/-- What the two passes make of one line of a comment. -/
structure FencesAgree (v : Vocabulary) (before : List Text) (line : Text) (after : List Text) :
    Prop where
  /-- A line is a line of code in its section exactly if it was recorded inside a fence, and is no
  fence itself. -/
  code_iff : (∃ t, partOf v before line after = some (.code t)) ↔
    (readingOf v before).fenced = true ∧ isFenceLine line = false
  /-- Of a line of code nothing is taken for a tag. -/
  untouched : (∃ t, partOf v before line after = some (.code t)) →
    (readLine v (readingOf v before) line).value = (readingOf v before).addLine line
  /-- At the start of any other line a tag counts. -/
  counts : (¬ ∃ t, partOf v before line after = some (.code t)) →
    ∀ name rest, tag? (trim line) = some (name, rest) →
      TagCounts v name (readingOf v before) (readingOf v (before ++ line :: after))

/-- Behind lines about which the passes agree they agree about the next line. -/
theorem FencesAgree.of_agrees (h : (readingOf v before).Agrees) (line : Text)
    (after : List Text) : FencesAgree v before line after := by
  have hcode : (∃ t, partOf v before line after = some (.code t)) ↔
      (readingOf v before).fenced = true ∧ isFenceLine line = false := by
    rw [partOf_eq]
    cases hkept : (taken v (readingOf v before) line).2 with
    | none =>
      obtain ⟨-, hr⟩ := text_of_taken hkept
      rw [hr]
      simp
    | some kept =>
      simp only [Option.map_some, Option.some.injEq]
      rw [← Part.isCode_iff, (h.next_taken hkept).1, Bool.and_eq_true, Bool.not_eq_true']
  refine ⟨hcode, fun h => ?_, fun h name rest htag => ?_⟩
  · obtain ⟨hr, hfence⟩ := hcode.mp h
    rw [readLine_value, taken_code hfence hr]
    rfl
  · have hfence := isFenceLine_of_tag? htag
    have hr : (readingOf v before).fenced = false := by
      rw [← Bool.not_eq_true]
      exact fun hr => h (hcode.mpr ⟨hr, hfence⟩)
    refine .of_continues htag ?_
    rw [← taken_text hfence hr]
    exact (taken_continues v _ line).trans (continues_readingOf v before line after)

/-- The blocks of a comment are put together from the parts that its lines are. Reading and sections
agree all the way through exactly if fences are apart; then the lines of code in the blocks are the
lines that were read inside a fence, and tags count outside of them and nowhere else. -/
theorem fences_agree (v : Vocabulary) (text : Text) :
    (parse v text).value = ofReading (readingOf v (unframe text)) ∧
      (∀ d ∈ (readingOf v (unframe text)).drafts, d.content = assemble (.prose []) d.parts) ∧
      (fencesApart v .initial (unframe text) = true ↔
        ∀ before after, unframe text = before ++ after → (readingOf v before).Agrees) ∧
      (fencesApart v .initial (unframe text) = true →
        ∀ before line after, unframe text = before ++ line :: after →
          FencesAgree v before line after) := by
  have hinitial : Reading.initial.Agrees := rfl
  have hiff := hinitial.readLines_iff v (unframe text)
  refine ⟨rfl, fun d _ => d.content_eq, hiff, fun hfences before line after hsplit => ?_⟩
  exact .of_agrees (hiff.mp hfences before (line :: after) hsplit) line after

/-- A comment with a tag in its code and another one behind it. -/
def fencedExample : Text :=
  "/**\n * @example\n * \x60\x60\x60ts\n * @beta add(1);\n * \x60\x60\x60\n * @remarks Later.\n */"

theorem fences_agree_of_fencedExample :
    fencesApart standardVocabulary .initial (unframe fencedExample) = true ∧
      ∀ before line after, unframe fencedExample = before ++ line :: after →
        FencesAgree standardVocabulary before line after := by
  have hfences : fencesApart standardVocabulary .initial (unframe fencedExample) = true := by
    decide +kernel
  obtain ⟨-, -, -, hlines⟩ := fences_agree standardVocabulary fencedExample
  exact ⟨hfences, hlines hfences⟩

/-- A comment whose fence stands on the line of a tag. -/
def misfencedExample : Text :=
  "/**\n * @example \x60\x60\x60ts\n * add(1);\n * \x60\x60\x60\n * @remarks Later.\n */"

/-- The code is read as text, so that the fence behind it hides the remarks. -/
theorem fences_disagree :
    Vocabulary.ofConfig .null = .ok standardVocabulary ∧
      (∃ before after, unframe misfencedExample = before ++ ("add(1);" : Text) :: after ∧
        (readingOf standardVocabulary before).fenced = false ∧
        partOf standardVocabulary before "add(1);" after = some (.code "add(1);")) ∧
      (∃ before after,
        unframe misfencedExample = before ++ ("@remarks Later." : Text) :: after ∧
        (readingOf standardVocabulary before).fenced = true ∧
        partOf standardVocabulary before "@remarks Later." after =
          some (.prose "@remarks Later.")) ∧
      (parse standardVocabulary misfencedExample).value.remarks?.isNone = true := by
  refine ⟨ofConfig_null,
    ⟨[[], "@example \x60\x60\x60ts"], ["\x60\x60\x60", "@remarks Later.", []], ?_⟩,
    ⟨[[], "@example \x60\x60\x60ts", "add(1);", "\x60\x60\x60"], [[]], ?_⟩, ?_⟩
  · decide +kernel
  · decide +kernel
  · decide +kernel

end ApiReference.Comment
