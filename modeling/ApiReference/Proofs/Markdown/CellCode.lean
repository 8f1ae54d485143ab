import ApiReference.Proofs.Markdown.Cells

/-!
# Code of several lines in table cells

In a table cell code becomes preformatted HTML: its pipes are escaped, and its line
breaks are written as character references (`write_cellCode`).  Nothing else of it is
escaped.  So a reader of the HTML gets the code back exactly if it has no markup itself:
no angle bracket and no entity (`shows_cellCode_iff`).
-/

namespace ApiReference.Markdown

open Doc Text Emission

variable {c d : Char} {s t code body : Text} {e : Emission}

/-! ## Reading HTML -/

/-- A text without the backslashes in front of its pipes. -/
def undoPipes : Text → Text
  | [] => []
  | '\\' :: '|' :: t => '|' :: undoPipes t
  | c :: t => c :: undoPipes t

/-- The entities that stand for characters of code. -/
def codeEntities : List (Text × Char) :=
  [("&#010;", '\n'), ("&lt;", '<'), ("&gt;", '>'), ("&amp;", '&')]

/-- A text with characters in place of the entities. -/
def decodeEntities : Text → Text
  | [] => []
  | '&' :: '#' :: '0' :: '1' :: '0' :: ';' :: t => '\n' :: decodeEntities t
  | '&' :: 'l' :: 't' :: ';' :: t => '<' :: decodeEntities t
  | '&' :: 'g' :: 't' :: ';' :: t => '>' :: decodeEntities t
  | '&' :: 'a' :: 'm' :: 'p' :: ';' :: t => '&' :: decodeEntities t
  | c :: t => c :: decodeEntities t

/-- Preformatted HTML shows code: it has no tags, and reads as the code with each line break as one
line feed. -/
structure ShowsCode (body code : Text) : Prop where
  no_open : '<' ∉ body
  no_close : '>' ∉ body
  read_eq : decodeEntities (undoPipes body) = unifyNewlines code

/-- Neither angle brackets nor entities occur in code. -/
structure MarkupFree (code : Text) : Prop where
  no_open : '<' ∉ code
  no_close : '>' ∉ code
  no_entity : ∀ entity ∈ codeEntities, ¬ entity.1 <:+: code

theorem undoPipes_cons (h : c = '\\' → t.head? ≠ some '|') :
    undoPipes (c :: t) = c :: undoPipes t := by
  rw [undoPipes]
  rintro rest hc rfl
  exact h hc rfl

theorem decodeEntities_entity {entity : Text × Char} (h : entity ∈ codeEntities) (t : Text) :
    decodeEntities (entity.1 ++ t) = entity.2 :: decodeEntities t := by
  simp only [codeEntities, List.mem_cons, List.not_mem_nil, or_false] at h
  rcases h with rfl | rfl | rfl | rfl <;> rfl

theorem decodeEntities_cons (h : ∀ entity ∈ codeEntities, ¬ entity.1 <+: c :: t) :
    decodeEntities (c :: t) = c :: decodeEntities t := by
  simp only [codeEntities, List.forall_mem_cons] at h
  obtain ⟨hfeed, hopen, hclose, hamp, -⟩ := h
  rw [decodeEntities]
  · rintro rest hc rfl
    exact hfeed (hc ▸ List.prefix_append _ rest)
  · rintro rest hc rfl
    exact hopen (hc ▸ List.prefix_append _ rest)
  · rintro rest hc rfl
    exact hclose (hc ▸ List.prefix_append _ rest)
  · rintro rest hc rfl
    exact hamp (hc ▸ List.prefix_append _ rest)

/-! ## Lines of code -/

/-- A line is a part of a text whichever the line breaks around it are. -/
theorem prefix_unifyNewlines_iff (hs : OneLine s) : s <+: unifyNewlines t ↔ s <+: t := by
  fun_induction unifyNewlines t generalizing s with
  | case1 => rfl
  | case2 t ih | case3 t _ ih =>
    cases s with
    | nil => simp
    | cons d s =>
      obtain ⟨⟨hfeed, hreturn⟩, -⟩ := OneLine.cons_iff.mp hs
      rw [List.cons_prefix_cons, List.cons_prefix_cons]
      exact iff_of_false (fun h => hfeed h.1) fun h => hreturn h.1
  | case4 c t _ _ ih =>
    cases s with
    | nil => simp
    | cons d s => rw [List.cons_prefix_cons, List.cons_prefix_cons, ih hs.of_cons]

theorem infix_unifyNewlines_iff (hs : OneLine s) (hne : s ≠ []) :
    s <:+: unifyNewlines t ↔ s <:+: t := by
  have hnot {c : Char} {u : Text} (hc : c ∉ s) : ¬ s <+: c :: u := by
    obtain ⟨d, s, rfl⟩ := List.exists_cons_of_ne_nil hne
    exact fun h => hc ((List.cons_prefix_cons.mp h).1 ▸ List.mem_cons_self ..)
  fun_induction unifyNewlines t with
  | case1 => rfl
  | case2 t ih =>
    rw [List.infix_cons_iff, List.infix_cons_iff, List.infix_cons_iff, or_iff_right (hnot hs.1),
      or_iff_right (hnot hs.2), or_iff_right (hnot hs.1)]
    exact ih
  | case3 t _ ih =>
    rw [List.infix_cons_iff, List.infix_cons_iff, or_iff_right (hnot hs.1),
      or_iff_right (hnot hs.2)]
    exact ih
  | case4 c t hpair hc ih =>
    rw [List.infix_cons_iff, List.infix_cons_iff, ← unifyNewlines_cons hc,
      prefix_unifyNewlines_iff hs]
    exact or_congr_right ih

theorem mem_unifyNewlines_iff (hfeed : c ≠ '\n') (hreturn : c ≠ '\r') :
    c ∈ unifyNewlines t ↔ c ∈ t := by
  have hone (u : Text) : [c] <:+: u ↔ c ∈ u := by
    rw [List.mem_iff_append]
    simp [List.IsInfix, eq_comm]
  rw [← hone, ← hone, infix_unifyNewlines_iff _ (List.cons_ne_nil c [])]
  exact OneLine.cons_iff.mpr ⟨⟨hfeed, hreturn⟩, .nil⟩

/-! ## Code in a cell -/

/-- What stands between the tags of preformatted code. -/
def cellCode (code : Text) : Text :=
  Text.join "&#010;" (splitLineFeeds (code.flatMap escapePipe))

/-- A character of code without its line break. -/
def unbrokenChar (c : Char) : Text := if c = '\n' then "&#010;" else [c]

/-- Every line break is written as a character reference, and every pipe with a backslash. -/
theorem cellCode_eq (h : ReturnsPaired code) : cellCode code =
    ((unifyNewlines code).flatMap unbrokenChar).flatMap escapePipe := by
  have hfeed : ("&#010;" : Text).flatMap escapePipe = "&#010;" := by decide
  rw [cellCode, splitLineFeeds_flatMap_escapePipe]
  fun_induction splitLineFeeds code with
  | case1 => rfl
  | case2 t ih =>
    rw [unifyNewlines, List.flatMap_cons, List.flatMap_append, ← ih h.of_cons.of_cons,
      List.map_cons, join_cons _ _ (by simpa using splitLineFeeds_ne_nil t)]
    rfl
  | case3 t ih =>
    rw [unifyNewlines_cons (by decide), List.flatMap_cons, List.flatMap_append, ← ih h.of_cons,
      List.map_cons, join_cons _ _ (by simpa using splitLineFeeds_ne_nil t)]
    rfl
  | case4 c t hpair hc first pieces hsplit ih =>
    have hreturn : c ≠ '\r' := by
      intro hreturn
      obtain ⟨rest, hrest⟩ := List.head?_eq_some_iff.mp ((ReturnsPaired.cons_iff.mp h).1 hreturn)
      exact hpair rest hreturn hrest
    rw [hsplit, List.map_cons] at ih
    rw [unifyNewlines_cons hreturn, List.flatMap_cons, List.flatMap_append, ← ih h.of_cons,
      unbrokenChar, if_neg hc, List.map_cons, List.flatMap_cons, join_append_head,
      List.flatMap_singleton]
  | case5 c t hpair hc hsplit ih => exact absurd hsplit (splitLineFeeds_ne_nil t)

/-- Escaped pipes are found again. -/
theorem undoPipes_flatMap (t : Text) : undoPipes (t.flatMap escapePipe) = t := by
  induction t with
  | nil => rfl
  | cons c t ih =>
    rw [List.flatMap_cons, escapePipe]
    split
    · rename_i hc
      rw [hc]
      exact congrArg ('|' :: ·) ih
    · have hhead : (t.flatMap escapePipe).head? ≠ some '|' := by
        cases t with
        | nil => simp
        | cons d t =>
          rw [List.flatMap_cons, escapePipe]
          split
          · simp
          · simpa using ‹_›
      rw [List.singleton_append, undoPipes_cons fun _ => hhead, ih]

/-! ## Entities in code -/

theorem eq_cons_of_mem_codeEntities : ∀ entity ∈ codeEntities,
    entity.1 = '&' :: entity.1.tail ∧ '&' ∉ entity.1.tail ∧ OneLine entity.1 ∧
      2 ≤ entity.1.length := by
  decide

theorem flatMap_unbrokenChar (hs : OneLine s) : s.flatMap unbrokenChar = s := by
  induction s with
  | nil => rfl
  | cons c s ih =>
    obtain ⟨⟨hc, -⟩, hs⟩ := OneLine.cons_iff.mp hs
    rw [List.flatMap_cons, ih hs, unbrokenChar, if_neg hc, List.singleton_append]

theorem prefix_flatMap_iff (hamp : '&' ∉ s) (hs : OneLine s) :
    s <+: t.flatMap unbrokenChar ↔ s <+: t := by
  induction t generalizing s with
  | nil => rfl
  | cons c t ih =>
    cases s with
    | nil => simp
    | cons d s =>
      rw [List.mem_cons, not_or] at hamp
      obtain ⟨⟨hfeed, -⟩, hline⟩ := OneLine.cons_iff.mp hs
      rw [List.flatMap_cons, unbrokenChar]
      split
      · rename_i hc
        refine iff_of_false (fun h => hamp.1 ?_) fun h => hfeed ?_
        · exact ((List.cons_prefix_cons.mp h).1).symm
        · exact (List.cons_prefix_cons.mp h).1.trans hc
      · rw [List.singleton_append, List.cons_prefix_cons, List.cons_prefix_cons, ih hamp.2 hline]

/-- A character that starts no entity is read as itself. -/
theorem decodeEntities_flatMap_cons (h : ∀ entity ∈ codeEntities, ¬ entity.1 <+: c :: t) :
    decodeEntities ((c :: t).flatMap unbrokenChar) =
      c :: decodeEntities (t.flatMap unbrokenChar) := by
  rw [List.flatMap_cons]
  by_cases hc : c = '\n'
  · rw [hc]
    exact decodeEntities_entity (List.mem_cons_self ..) _
  · rw [unbrokenChar, if_neg hc, List.singleton_append]
    refine decodeEntities_cons fun entity hentity hprefix => h entity hentity ?_
    obtain ⟨hcons, hamp, hline, -⟩ := eq_cons_of_mem_codeEntities entity hentity
    rw [hcons] at hprefix hline ⊢
    obtain ⟨hfirst, htail⟩ := List.cons_prefix_cons.mp hprefix
    exact List.cons_prefix_cons.mpr ⟨hfirst, (prefix_flatMap_iff hamp hline.of_cons).mp htail⟩

theorem decodeEntities_flatMap (h : ∀ entity ∈ codeEntities, ¬ entity.1 <:+: t) :
    decodeEntities (t.flatMap unbrokenChar) = t := by
  induction t with
  | nil => rfl
  | cons c t ih =>
    rw [decodeEntities_flatMap_cons fun entity hentity hprefix => h entity hentity hprefix.isInfix,
      ih fun entity hentity hinfix => h entity hentity (List.infix_cons hinfix)]

/-- Every entity of the code that is read for a character makes it shorter. -/
theorem length_decodeEntities_flatMap (t : Text) :
    (decodeEntities (t.flatMap unbrokenChar)).length ≤ t.length ∧
      ((∃ entity ∈ codeEntities, entity.1 <:+: t) →
        (decodeEntities (t.flatMap unbrokenChar)).length < t.length) := by
  induction hlength : t.length using Nat.strong_induction_on generalizing t with
  | _ n ih =>
    by_cases hstart : ∃ entity ∈ codeEntities, entity.1 <+: t
    · obtain ⟨entity, hentity, rest, rfl⟩ := hstart
      obtain ⟨-, -, hline, htwo⟩ := eq_cons_of_mem_codeEntities entity hentity
      rw [List.length_append] at hlength
      have hrest := (ih rest.length (by omega) rest rfl).1
      rw [List.flatMap_append, flatMap_unbrokenChar hline, decodeEntities_entity hentity,
        List.length_cons]
      exact ⟨by omega, fun _ => by omega⟩
    · simp only [not_exists, not_and] at hstart
      cases t with
      | nil => exact ⟨Nat.zero_le _, fun ⟨entity, hentity, hinfix⟩ =>
          absurd (List.infix_nil.mp hinfix ▸ List.nil_prefix) (hstart entity hentity)⟩
      | cons c t =>
        rw [List.length_cons] at hlength
        obtain ⟨hle, hlt⟩ := ih t.length (by omega) t rfl
        rw [decodeEntities_flatMap_cons hstart, List.length_cons]
        refine ⟨by omega, ?_⟩
        rintro ⟨entity, hentity, hinfix⟩
        have hlater := (List.infix_cons_iff.mp hinfix).resolve_left (hstart entity hentity)
        have hshorter := hlt ⟨entity, hentity, hlater⟩
        omega

theorem decodeEntities_flatMap_iff : decodeEntities (t.flatMap unbrokenChar) = t ↔
    ∀ entity ∈ codeEntities, ¬ entity.1 <:+: t := by
  constructor
  · intro h entity hentity hinfix
    have hshorter := (length_decodeEntities_flatMap t).2 ⟨entity, hentity, hinfix⟩
    rw [h] at hshorter
    exact Nat.lt_irrefl _ hshorter
  · exact decodeEntities_flatMap

/-! ## Reading the code of a cell -/

/-- Writing another character in a different way adds and removes no occurrence of a character. -/
theorem mem_replaced_iff {c d : Char} {s : Text} (hd : c ≠ d) (hs : c ∉ s) (x : Char) :
    c ∈ (if x = d then s else [x]) ↔ c = x := by
  split
  · rename_i hx
    exact iff_of_false hs (hx ▸ hd)
  · exact List.mem_singleton

theorem mem_cellCode_iff (h : ReturnsPaired code) (hline : c ≠ '\n' ∧ c ≠ '\r') (hc : c ≠ '|')
    (hpipe : c ∉ ("\\|" : Text)) (hfeed : c ∉ ("&#010;" : Text)) :
    c ∈ cellCode code ↔ c ∈ code := by
  have hescaped (x : Char) : c ∈ escapePipe x ↔ c = x := mem_replaced_iff hc hpipe x
  have hunbroken (x : Char) : c ∈ unbrokenChar x ↔ c = x := mem_replaced_iff hline.1 hfeed x
  rw [cellCode_eq h, ← mem_unifyNewlines_iff (t := code) hline.1 hline.2]
  simp only [List.mem_flatMap, hescaped, hunbroken, exists_eq_right']

/-- Code is read back from a cell exactly if it has no markup. -/
theorem shows_cellCode_iff (h : ReturnsPaired code) :
    ShowsCode (cellCode code) code ↔ MarkupFree code := by
  have hread : decodeEntities (undoPipes (cellCode code)) = unifyNewlines code ↔
      ∀ entity ∈ codeEntities, ¬ entity.1 <:+: code := by
    rw [cellCode_eq h, undoPipes_flatMap, decodeEntities_flatMap_iff]
    refine forall₂_congr fun entity hentity => not_congr ?_
    obtain ⟨hcons, -, hline, -⟩ := eq_cons_of_mem_codeEntities entity hentity
    exact infix_unifyNewlines_iff hline (hcons ▸ List.cons_ne_nil _ _)
  have hopen : '<' ∈ cellCode code ↔ '<' ∈ code :=
    mem_cellCode_iff h (by decide) (by decide) (by decide) (by decide)
  have hclose : '>' ∈ cellCode code ↔ '>' ∈ code :=
    mem_cellCode_iff h (by decide) (by decide) (by decide) (by decide)
  constructor
  · rintro ⟨hnone, hnone', heq⟩
    exact ⟨fun hmem => hnone (hopen.mpr hmem), fun hmem => hnone' (hclose.mpr hmem), hread.mp heq⟩
  · rintro ⟨hnone, hnone', hentity⟩
    exact ⟨fun hmem => hnone (hopen.mp hmem), fun hmem => hnone' (hclose.mp hmem),
      hread.mpr hentity⟩

/-! ## Writing -/

theorem codeSpan_of_mem (h : '\n' ∈ code) :
    codeSpan code true = "<pre>" ++ cellCode code ++ "</pre>" := by
  have htwo : 2 ≤ (splitLineFeeds (code.flatMap escapePipe)).length := by
    rw [splitLineFeeds_flatMap_escapePipe, List.length_map]
    exact two_le_length_splitLineFeeds h
  unfold codeSpan
  rw [if_neg (by simp)]
  split
  · rename_i line hline
    rw [hline, List.length_singleton] at htwo
    exact absurd htwo (by decide)
  · rfl

theorem trimNewlines_eq_self (h : ReturnsPaired code) (hend : code.getLast? ≠ some '\n') :
    trimNewlines code = code := by
  rw [trimNewlines_eq_rdropWhile, List.rdropWhile_eq_self_iff]
  intro hne hlast
  rcases Bool.or_eq_true_iff.mp hlast with hfeed | hreturn
  · rw [List.getLast?_eq_some_getLast hne, beq_iff_eq.mp hfeed] at hend
    exact hend rfl
  · have hsplit := (List.dropLast_concat_getLast hne).symm
    rw [beq_iff_eq.mp hreturn] at hsplit
    exact absurd (h _ _ hsplit) (by simp)

/-- Code of several lines in a table cell, whether a span or a block of its own, is written between
the tags of preformatted HTML, on one line. It can be read back from there, with each line break as
one line feed, exactly if it has no angle brackets and no entities. -/
theorem write_code_shows_iff (he : e.insideTable = true) (hpaired : ReturnsPaired code)
    (hend : code.getLast? ≠ some '\n') (followed : Bool) (language : Json) :
    ('\n' ∈ code → write followed (.codeSpan code) e =
      e.put ("<pre>" ++ cellCode code ++ "</pre>")) ∧
    write followed (.fencedCode code language) e =
      e.put ("<pre lang=\"" ++ language.display ++ "\">" ++ cellCode code ++ "</pre>") ∧
    OneLine (cellCode code) ∧
    (ShowsCode (cellCode code) code ↔ MarkupFree code) := by
  refine ⟨fun hfeed => ?_, ?_, ?_, shows_cellCode_iff hpaired⟩
  · rw [write, he, codeSpan_of_mem hfeed]
  · rw [write, fencedCode, trimNewlines_eq_self hpaired hend]
    exact if_pos he
  · exact (Piped.join (.mark rfl) (piped_of_mem_splitLineFeeds hpaired)).oneLine

/-- A type without markup whose lines end in different ways. -/
def unionType : Text := "'a' | 'b' |\r\n  'c & d' \\|\n  'e'"

theorem write_code_shows_of_union :
    ReturnsPaired unionType ∧ unionType.getLast? ≠ some '\n' ∧ '\n' ∈ unionType ∧
    cellCode unionType = "'a' \\| 'b' \\|&#010;  'c & d' \\\\|&#010;  'e'" ∧
    let e : Emission := openRow (openTable .initial)
    ('\n' ∈ unionType → write false (.codeSpan unionType) e =
      e.put ("<pre>" ++ cellCode unionType ++ "</pre>")) ∧
    write false (.fencedCode unionType (.text "ts")) e =
      e.put ("<pre lang=\"" ++ (Json.text "ts").display ++ "\">" ++ cellCode unionType ++
        "</pre>") ∧
    OneLine (cellCode unionType) ∧
    (ShowsCode (cellCode unionType) unionType ↔ MarkupFree unionType) :=
  ⟨by decide, by decide, by decide, by decide,
    write_code_shows_iff rfl (by decide) (by decide) false (.text "ts")⟩

/-- The type arguments of a type are written as a tag, and what looks like an entity is read as
one. -/
theorem markup_in_cell_lost :
    let generic : Text := "Map<string,\n  number>"
    let entity : Text := "'&lt;' |\n'&gt;'"
    (emit none (.table (Node.titles ["Type"])
      [[Node.cell (.codeSpan generic)], [[.fencedCode entity (.text "ts")]]])).outcome.toOption =
      some ("|  Type |\n|  --- |\n|  <pre>Map<string,&#010;  number></pre> |\n" ++
        "|  <pre lang=\"ts\">'&lt;' \\|&#010;'&gt;'</pre> |\n\n" : Text) ∧
    ReturnsPaired generic ∧ generic.getLast? ≠ some '\n' ∧ '\n' ∈ generic ∧
    '<' ∈ cellCode generic ∧ '>' ∈ cellCode generic ∧
    ReturnsPaired entity ∧ entity.getLast? ≠ some '\n' ∧
    decodeEntities (undoPipes (cellCode entity)) = "'<' |\n'>'" := by
  decide +kernel

end ApiReference.Markdown
