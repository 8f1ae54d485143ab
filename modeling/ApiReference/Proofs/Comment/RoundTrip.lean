import ApiReference.Proofs.Comment.Reading

/-!
# Comments read back

A comment written with passages, block tags and parameters is read into exactly what
was written, with no notice (`parse_written`).  Each entry of it becomes one
draft and each draft one block, in any number and order.
-/

namespace ApiReference.Comment

open Text

variable {r : Reading} {drafts : List Draft} {name : Text}

/-! ## The standard tags -/

/-- The tags that open blocks unless a configuration says otherwise. -/
def blockTags : List Text :=
  ["defaultValue", "deprecated", "example", "param", "privateRemarks", "remarks", "returns", "see",
    "throws", "typeParam"]

def modifierTags : List Text :=
  ["alpha", "beta", "eventProperty", "internal", "override", "packageDocumentation", "public",
    "readonly", "sealed", "virtual"]

def standardVocabulary : Vocabulary :=
  ⟨blockTags.map upper, modifierTags.map fun tag => (upper tag, tag)⟩

theorem ofConfig_null : Vocabulary.ofConfig .null = .ok standardVocabulary := rfl

/-- The blocks that a comment keeps apart from the others. -/
def ownTags : List Text := ["param", "remarks", "deprecated", "returns"]

theorem modifier?_upper :
    ∀ tag ∈ blockTags, standardVocabulary.modifier? (upper tag) = none := by
  decide

theorem isBlock_upper : ∀ tag ∈ blockTags, standardVocabulary.isBlock (upper tag) = true := by
  decide

theorem unbroken_of_mem_blockTags : ∀ tag ∈ blockTags, Unbroken ('@' :: tag) := by
  decide

theorem trim_of_mem_blockTags : ∀ tag ∈ blockTags, trim ('@' :: tag) = '@' :: tag := by
  decide

theorem tag?_of_mem_blockTags : ∀ tag ∈ blockTags, tag? ('@' :: tag) = some (tag, []) := by
  decide

/-! ## Written comments -/

/-- A block of a written comment. The block of a parameter starts on the line that names it. -/
inductive Entry where
  | block (tag : Text) (listed : tag ∈ blockTags) (plain : tag ≠ "param") (body : List Passage)
  | param (name : Text) (nonempty : name ≠ []) (named : name.all isParamChar = true)
    (first : ProseLine) (body : List Passage)

namespace Entry

def tag : Entry → Text
  | .block tag .. => tag
  | .param .. => "param"

/-- The line that an entry starts with. -/
def header : Entry → Text
  | .block tag .. => '@' :: tag
  | .param name _ _ first _ => ("@param " : Text) ++ (name ++ ((" - " : Text) ++ first.text))

def body : Entry → List Passage
  | .block _ _ _ body | .param _ _ _ _ body => body

/-- The lines that an entry is written on. -/
def lines (e : Entry) : List Text := e.header :: linesOf e.body

/-- The text of an entry, with the text on the line of its tag. -/
def passages : Entry → List Passage
  | .block _ _ _ body => body
  | .param _ _ _ first body => .prose first :: body

/-- The block that an entry writes. -/
def content (e : Entry) : Block := ⟨e.tag, sectionNodes (linesOf e.passages)⟩

def param? (e : Entry) : Option ParamBlock :=
  match e with
  | .block .. => none
  | .param name .. => some ⟨e.content, name⟩

end Entry

/-- The last block that entries write with a tag. -/
def lastBlock? (tag : Text) (entries : List Entry) : Option Block :=
  (entries.filter (·.tag = tag)).getLast?.map Entry.content

/-- The blocks that entries write and that a comment does not keep apart. -/
def customBlocks (entries : List Entry) : List Block :=
  (entries.filter (·.tag ∉ ownTags)).map Entry.content

/-- A comment as it is written: a summary and blocks. -/
structure Source where
  summary : List Passage
  entries : List Entry

namespace Source

def written (s : Source) : Text :=
  framed (linesOf s.summary ++ s.entries.flatMap Entry.lines)

/-- What a written comment says. -/
def comment (s : Source) : Comment where
  summary := sectionNodes (linesOf s.summary)
  remarks? := lastBlock? "remarks" s.entries
  deprecated? := lastBlock? "deprecated" s.entries
  returns? := lastBlock? "returns" s.entries
  params := s.entries.filterMap Entry.param?
  custom := customBlocks s.entries
  modifiers := []

end Source

/-! ## Parameters -/

theorem isBlank_eq_false_of_mem_name (named : name.all isParamChar = true) :
    ∀ c ∈ name, isBlank c = false := fun c hc =>
  isBlank_eq_false_of_isWord_or rfl rfl (List.all_eq_true.mp named c hc)

/-- The line of a parameter after its tag, up to the blanks at its end. -/
def paramText (name : Text) (first : ProseLine) : Text :=
  name ++ trimEnd ((" - " : Text) ++ first.text)

/-- What follows the name of a parameter is a hyphen and the text of the line. -/
theorem trimEnd_hyphen (first : ProseLine) :
    ∃ t, trimEnd ((" - " : Text) ++ first.text) = ' ' :: '-' :: t ∧
      t.dropWhile isBlank = first.text := by
  by_cases hne : first.text = []
  · refine ⟨[], ?_, ?_⟩
    · rw [hne]
      rfl
    · rw [hne]
      rfl
  · obtain ⟨hstart, hend⟩ := trim_eq_self_iff.mp first.trimmed
    refine ⟨' ' :: first.text, ?_, hstart⟩
    rw [trimEnd_append _ (by rwa [hend]), hend]
    rfl

section Param

variable (nonempty : name ≠ []) (named : name.all isParamChar = true) (first : ProseLine)

theorem trimEnd_paramText : trimEnd (paramText name first) = paramText name first := by
  obtain ⟨t, ht, -⟩ := trimEnd_hyphen first
  rw [paramText, trimEnd_append name (by rw [trimEnd_trimEnd, ht]; exact List.cons_ne_nil _ _),
    trimEnd_trimEnd]

include nonempty named

theorem trimStart_paramText : trimStart (paramText name first) = paramText name first := by
  rw [trimStart_eq_self_iff, paramText, List.head?_append_of_ne_nil _ nonempty]
  exact fun c hc => isBlank_eq_false_of_mem_name named c (List.mem_of_mem_head? hc)

/-- A parameter is read back with its name and the text of its line. -/
theorem paramLine?_paramText : paramLine? (paramText name first) = some (name, first.text) := by
  have htrim : trim (paramText name first) = paramText name first :=
    trim_eq_self_iff.mpr ⟨trimStart_paramText nonempty named first, trimEnd_paramText first⟩
  obtain ⟨t, ht, hfirst⟩ := trimEnd_hyphen first
  have hend : ∀ c ∈ (' ' :: '-' :: t).head?, isParamChar c = false := by
    intro c hc
    cases hc
    decide
  have hne : name.isEmpty = false := List.isEmpty_eq_false_iff.mpr nonempty
  rw [paramLine?, htrim, paramText, ht, takeWhile_run named hend, dropWhile_run named hend, hne,
    if_neg Bool.false_ne_true, ← hfirst]
  rfl

omit named in
theorem trimEnd_param : trimEnd (("@param " : Text) ++ (name ++ ((" - " : Text) ++ first.text))) =
    ("@param " : Text) ++ paramText name first := by
  obtain ⟨t, ht, -⟩ := trimEnd_hyphen first
  have hname : trimEnd (name ++ ((" - " : Text) ++ first.text)) = paramText name first :=
    trimEnd_append name (by rw [ht]; exact List.cons_ne_nil _ _)
  have hne : paramText name first ≠ [] := List.append_ne_nil_of_left_ne_nil nonempty _
  rw [trimEnd_append _ (by rwa [hname]), hname]

theorem tag?_param : tag? (("@param " : Text) ++ paramText name first) =
    some (("param" : Text), paramText name first) := by
  have hend : ∀ d ∈ (' ' :: paramText name first).head?, isWord d = false := by
    intro d hd
    cases hd
    decide
  have htag := tag?_append (c := 'p') (t := "aram") (by decide) (by decide) hend
  rw [List.dropWhile_cons_of_pos isBlank_space] at htag
  have hstart := trimStart_paramText nonempty named first
  rw [trimStart] at hstart
  rw [hstart] at htag
  exact htag

end Param

/-! ## Entries -/

namespace Entry

/-- What an entry says on the line of its tag. -/
def labels : Entry → List Text
  | .block .. => []
  | .param name _ _ first _ => [paramText name first]

/-- The draft that an entry is read into. -/
def draft (e : Entry) : Draft := ⟨e.tag, e.labels ++ linesOf e.body⟩

theorem tag_mem_blockTags (e : Entry) : e.tag ∈ blockTags := by
  cases e with
  | block tag listed => exact listed
  | param name nonempty named first body => exact (by decide : ("param" : Text) ∈ blockTags)

theorem readLine_header (e : Entry) (h : r.fenced = false) :
    readLine standardVocabulary r (trimEnd e.header) =
      pure ((r.openBlock e.tag).addLines e.labels) := by
  have hm := modifier?_upper e.tag e.tag_mem_blockTags
  have hb := isBlock_upper e.tag e.tag_mem_blockTags
  cases e with
  | block tag listed plain body =>
    have htrim := trim_of_mem_blockTags tag listed
    have hheader : trimEnd (header (.block tag listed plain body)) = '@' :: tag :=
      (trim_eq_self_iff.mp htrim).2
    rw [hheader]
    exact readLine_block h htrim (tag?_of_mem_blockTags tag listed) hm hb
  | param name nonempty named first body =>
    have hheader : trimEnd (header (.param name nonempty named first body)) =
        ("@param " : Text) ++ paramText name first := trimEnd_param nonempty first
    have htrim : trim (("@param " : Text) ++ paramText name first) =
        ("@param " : Text) ++ paramText name first :=
      trim_eq_self_iff.mpr ⟨rfl, by rw [← hheader, trimEnd_trimEnd]⟩
    have hne : (paramText name first).isEmpty = false :=
      List.isEmpty_eq_false_iff.mpr (List.append_ne_nil_of_left_ne_nil nonempty _)
    have hread := readLine_block h htrim (tag?_param nonempty named first) hm hb
    rw [hne, if_neg Bool.false_ne_true] at hread
    rw [hheader]
    exact hread

/-- The lines of an entry are read into its draft. -/
theorem readLines_lines (e : Entry) (h : r.fenced = false) :
    readLines standardVocabulary r (e.lines.map trimEnd) =
      pure ((r.openBlock e.tag).addLines e.draft.lines) := by
  have hbody : (linesOf e.body).map trimEnd = linesOf e.body :=
    map_trimEnd_of_framable (framable_of_mem_linesOf e.body)
  rw [lines, List.map_cons, hbody, readLines, readLine_header e h, pure_bind,
    readLines_linesOf (by exact h), Reading.addLines_addLines]
  rfl

theorem unbroken_lines (e : Entry) : ∀ line ∈ e.lines, Unbroken line := by
  intro line hline
  rcases List.mem_cons.mp hline with rfl | hline
  · cases e with
    | block tag listed plain body => exact unbroken_of_mem_blockTags tag listed
    | param name nonempty named first body =>
      have hname : Unbroken name := .of_not_isBlank (isBlank_eq_false_of_mem_name named)
      exact .append (by decide) (.append hname (.append (by decide) first.unbroken))
  · exact (framable_of_mem_linesOf e.body line hline).unbroken

/-- The text on the line of a tag, in front of the other lines of its entry. -/
def first : Entry → List Text
  | .block .. => []
  | .param _ _ _ first _ => [first.text]

theorem linesOf_passages (e : Entry) : linesOf e.passages = e.first ++ linesOf e.body := by
  cases e <;> rfl

theorem sectionNodes_append_empty (e : Entry) :
    sectionNodes (e.first ++ (linesOf e.body ++ [[]])) = sectionNodes (linesOf e.passages) := by
  rw [← List.append_assoc, ← linesOf_passages]
  exact Comment.sectionNodes_append_empty e.passages

end Entry

/-! ## Blocks -/

theorem lastBlock?_concat (tag : Text) (entries : List Entry) (e : Entry) :
    lastBlock? tag (entries ++ [e]) =
      if e.tag = tag then some e.content else lastBlock? tag entries := by
  rw [lastBlock?, List.filter_append]
  split
  · rename_i h
    rw [List.filter_cons_of_pos (by simpa using h), List.filter_nil, List.getLast?_concat]
    rfl
  · rename_i h
    rw [List.filter_cons_of_neg (by simpa using h), List.filter_nil, List.append_nil]
    rfl

theorem customBlocks_concat (entries : List Entry) (e : Entry) :
    customBlocks (entries ++ [e]) =
      if e.tag ∈ ownTags then customBlocks entries else customBlocks entries ++ [e.content] := by
  rw [customBlocks, List.filter_append, List.map_append]
  split
  · rename_i h
    rw [List.filter_cons_of_neg (by simpa using h), List.filter_nil, List.map_nil, List.append_nil]
    rfl
  · rename_i h
    rw [List.filter_cons_of_pos (by simpa using h), List.filter_nil]
    rfl

/-- What one block adds to a comment depends on its tag. -/
theorem addDraft_block {tag : Text} (listed : tag ∈ blockTags) (plain : tag ≠ "param")
    (c : Comment) (lines : List Text) :
    addDraft c ⟨tag, lines⟩ =
      let block : Block := ⟨tag, sectionNodes lines⟩
      { c with
        remarks? := if tag = "remarks" then some block else c.remarks?
        deprecated? := if tag = "deprecated" then some block else c.deprecated?
        returns? := if tag = "returns" then some block else c.returns?
        custom := if tag ∈ ownTags then c.custom else c.custom ++ [block] } := by
  simp only [blockTags, List.mem_cons, List.not_mem_nil, or_false] at listed
  rcases listed with rfl | rfl | rfl | rfl | rfl | rfl | rfl | rfl | rfl | rfl
  case inr.inr.inr.inl => exact absurd rfl plain
  all_goals rfl

theorem addDraft_param {name : Text} (nonempty : name ≠ [])
    (named : name.all isParamChar = true) (first : ProseLine) (c : Comment)
    (lines : List Text) :
    addDraft c ⟨"param", paramText name first :: lines⟩ =
      { c with params := c.params ++ [⟨⟨"param", sectionNodes (first.text :: lines)⟩, name⟩] } := by
  have hblock : paramBlock ⟨"param", paramText name first :: lines⟩ =
      ⟨⟨"param", sectionNodes (first.text :: lines)⟩, name⟩ := by
    rw [paramBlock]
    dsimp only
    rw [paramLine?_paramText nonempty named first]
  rw [← hblock]
  rfl

/-- The draft of one more entry adds the block that the entry writes. -/
theorem addDraft_entry (summary : List Passage) (entries : List Entry) (e : Entry)
    {lines : List Text} (h : sectionNodes (e.first ++ lines) = sectionNodes (linesOf e.passages)) :
    addDraft (Source.comment ⟨summary, entries⟩) ⟨e.tag, e.labels ++ lines⟩ =
      Source.comment ⟨summary, entries ++ [e]⟩ := by
  have hcontent : (⟨e.tag, sectionNodes (e.first ++ lines)⟩ : Block) = e.content :=
    congrArg (Block.mk e.tag) h
  have hparams : (entries ++ [e]).filterMap Entry.param? =
      entries.filterMap Entry.param? ++ e.param?.toList := by
    rw [List.filterMap_append, List.filterMap_cons, List.filterMap_nil]
    cases e.param? <;> rfl
  simp only [Source.comment, lastBlock?_concat, customBlocks_concat, hparams]
  cases e with
  | block tag listed plain body =>
    rw [← hcontent, Entry.param?, Option.toList_none, List.append_nil]
    exact addDraft_block listed plain _ lines
  | param name nonempty named first body =>
    have hparam : Entry.param? (.param name nonempty named first body) =
        some ⟨⟨"param", sectionNodes (first.text :: lines)⟩, name⟩ :=
      congrArg (fun b : Block => (some ⟨b, name⟩ : Option ParamBlock)) hcontent.symm
    rw [hparam]
    exact addDraft_param nonempty named first _ lines

/-- The drafts of entries make the comment that the entries write. -/
theorem foldl_addDraft (summary : List Passage) (entries : List Entry) :
    (entries.map Entry.draft).foldl addDraft (Source.comment ⟨summary, []⟩) =
      Source.comment ⟨summary, entries⟩ := by
  induction entries using List.reverseRecOn with
  | nil => rfl
  | append_singleton entries e ih =>
    rw [List.map_append, List.foldl_append, ih]
    exact addDraft_entry summary entries e (by rw [e.linesOf_passages])

/-! ## Comments -/

/-- A reading outside of code that has found no modifier. -/
structure Reading.Holds (r : Reading) (drafts : List Draft) : Prop where
  unfenced : r.fenced = false
  unmarked : r.modifiers = []
  drafts_eq : r.drafts = drafts

theorem readLines_entries (h : r.Holds drafts) (entries : List Entry) :
    ∃ r', readLines standardVocabulary r ((entries.flatMap Entry.lines).map trimEnd) = pure r' ∧
      r'.Holds (drafts ++ entries.map Entry.draft) := by
  induction entries generalizing r drafts with
  | nil =>
    refine ⟨r, rfl, ?_⟩
    rwa [List.map_nil, List.append_nil]
  | cons e entries ih =>
    have he : ((r.openBlock e.tag).addLines e.draft.lines).Holds (drafts ++ [e.draft]) := by
      refine ⟨h.unfenced, h.unmarked, ?_⟩
      rw [Reading.drafts_openBlock, h.drafts_eq]
      rfl
    obtain ⟨r', hread, hr'⟩ := ih he
    refine ⟨r', ?_, ?_⟩
    · rw [List.flatMap_cons, List.map_append, readLines_append, e.readLines_lines h.unfenced,
        pure_bind, hread]
    · rwa [List.map_cons, List.append_cons]

theorem ofReading_eq {draft : Draft} (h : r.Holds (draft :: drafts)) :
    ofReading r =
      drafts.foldl addDraft { empty with summary := sectionNodes draft.lines } := by
  rw [ofReading, h.drafts_eq]
  dsimp only
  rw [h.unmarked]
  rfl

/-- The empty line at the end of a frame changes nothing in the comment that is read. -/
theorem ofReading_addLine {summary : List Passage} {entries : List Entry}
    (h : r.Holds (⟨"summary", [] :: linesOf summary⟩ :: entries.map Entry.draft)) :
    ofReading (r.addLine []) = Source.comment ⟨summary, entries⟩ := by
  rcases List.eq_nil_or_concat' entries with rfl | ⟨entries, e, rfl⟩
  · have hdrafts : r.drafts = [] ++ [⟨"summary", [] :: linesOf summary⟩] := h.drafts_eq
    have hr : (r.addLine []).Holds [⟨"summary", [] :: (linesOf summary ++ [[]])⟩] :=
      ⟨h.unfenced, h.unmarked, Reading.drafts_addLine hdrafts []⟩
    rw [ofReading_eq hr, sectionNodes_cons_empty, sectionNodes_append_empty]
    rfl
  · rw [List.map_append, List.map_singleton, ← List.cons_append] at h
    have hr : (r.addLine []).Holds (⟨"summary", [] :: linesOf summary⟩ ::
        (entries.map Entry.draft ++ [⟨e.tag, e.labels ++ (linesOf e.body ++ [[]])⟩])) := by
      refine ⟨h.unfenced, h.unmarked, ?_⟩
      rw [Reading.drafts_addLine h.drafts_eq, ← List.append_assoc e.labels]
      rfl
    rw [ofReading_eq hr, sectionNodes_cons_empty, List.foldl_append]
    have hentries : (entries.map Entry.draft).foldl addDraft
        { empty with summary := sectionNodes (linesOf summary) } =
          Source.comment ⟨summary, entries⟩ := foldl_addDraft summary entries
    rw [hentries]
    exact addDraft_entry summary entries e e.sectionNodes_append_empty

theorem Source.unbroken (s : Source) :
    ∀ line ∈ linesOf s.summary ++ s.entries.flatMap Entry.lines, Unbroken line := by
  intro line hline
  rcases List.mem_append.mp hline with hline | hline
  · exact (framable_of_mem_linesOf s.summary line hline).unbroken
  · obtain ⟨e, -, hline⟩ := List.mem_flatMap.mp hline
    exact e.unbroken_lines line hline

theorem parse_written (s : Source) : parse standardVocabulary s.written = pure s.comment := by
  have hsummary : (linesOf s.summary).map trimEnd = linesOf s.summary :=
    map_trimEnd_of_framable (framable_of_mem_linesOf s.summary)
  have hlines : unframe s.written =
      ([] :: linesOf s.summary) ++ ((s.entries.flatMap Entry.lines).map trimEnd ++ [[]]) := by
    rw [Source.written, unframe_framed s.unbroken, List.map_append, hsummary, List.cons_append,
      List.append_assoc, List.cons_append]
  -- The first line of the frame and the summary are passages of the draft that is open first.
  have hfirst : readLines standardVocabulary Reading.initial ([] :: linesOf s.summary) =
      pure (Reading.initial.addLines ([] :: linesOf s.summary)) :=
    readLines_linesOf (r := Reading.initial) rfl (.prose .empty :: s.summary)
  have hstart : (Reading.initial.addLines ([] :: linesOf s.summary)).Holds
      [⟨"summary", [] :: linesOf s.summary⟩] := ⟨rfl, rfl, rfl⟩
  obtain ⟨r, hread, hr⟩ := readLines_entries hstart s.entries
  have hlast : readLine standardVocabulary r [] = pure (r.addLine []) :=
    readLine_prose hr.unfenced .empty
  rw [parse, hlines, readLines_append, hfirst, pure_bind, readLines_append, hread, pure_bind,
    readLines_singleton, hlast, pure_bind, ofReading_addLine hr]

/-- A written comment is read into what it says, without a notice. -/
theorem ofDocument_written (s : Source) :
    ofDocument .null (.text s.written) = pure s.comment := by
  have hconfig : (liftM (Vocabulary.ofConfig .null) : Traced Vocabulary) =
      pure standardVocabulary := by
    rw [ofConfig_null]
    rfl
  have htext : (liftM (Json.asText (.text s.written)) : Traced Text) = pure s.written := rfl
  have hparse : (liftM (parse standardVocabulary s.written) : Traced Comment) =
      pure s.comment := by
    rw [parse_written]
    rfl
  rw [ofDocument, hconfig, pure_bind, htext, pure_bind, hparse]

example : Source.written
    ⟨[.prose ⟨"Adds.", by decide, by decide, rfl, by decide⟩],
      [.param "a" (by decide) (by decide) ⟨"one", by decide, by decide, rfl, by decide⟩ [],
        .block "example" (by decide) (by decide)
          [.code "ts" (by decide) [⟨"  @a", by decide, by decide, by decide⟩]]]⟩ =
    ("/**\n * Adds.\n * @param a - one\n * @example\n" ++
      " * \x60\x60\x60ts\n *   @a\n * \x60\x60\x60\n */" : String) := by
  decide

end ApiReference.Comment
