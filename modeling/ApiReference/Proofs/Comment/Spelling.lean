import ApiReference.Comment.Inline
import ApiReference.Proofs.Doc.Regroup
import ApiReference.Proofs.Text.Split

/-!
# Lines and their nodes

The nodes of a line can be written again (`spelling`).  A line without inline tags is
the spelling of its nodes, since each of the other two forms is kept as it stands
(`spelled_inlineFrom`).  And nodes are read back from their spelling (`inline_spelled`):
what a node other than a text starts with ends the text in front of it, and what it is
read from ends with it, whatever follows (`special?_spelling`).
-/

namespace ApiReference.Comment

open Doc Text

variable {n : Node} {ns : List Node} {collected text rest destination label : Text} {c : Char}

/-! ## Spelling -/

/-- What stands between the name and the end of the tag of a link. -/
def linkBody (destination : Text) (label? : Option Text) : Text :=
  destination ++ label?.elim [] ((" | " : Text) ++ ·)

/-- How a link is written. -/
def linkSpelling (destination : Text) (label? : Option Text) : Text :=
  '\x7b' :: '@' :: (("link" : Text) ++ ' ' :: (linkBody destination label? ++ ['\x7d']))

/-- How a node is written in a line. Links without a destination and what is not found in lines have
no spelling. -/
def spelling : Node → Text
  | .plainText text => text
  | .codeSpan code => '\x60' :: (code ++ ['\x60'])
  | .escapedText encoded _ => encoded
  | .linkTag (some destination) none label? => linkSpelling destination label?
  | .linkTag none (some destination) label? => linkSpelling destination label?
  | _ => []

def spelled (ns : List Node) : Text := ns.flatMap spelling

/-- The characters that an inline tag starts with. -/
def tagOpening : Text := "\x7b@"

/-- A destination that a link can be written with. -/
structure IsDestination (destination : Text) : Prop where
  nonempty : destination ≠ []
  trimmed : trim destination = destination
  no_bar : '|' ∉ destination
  no_brace : '\x7d' ∉ destination

/-- A text that a link can be written with. -/
structure IsLabel (label : Text) : Prop where
  nonempty : label ≠ []
  trimmed : trim label = label
  no_brace : '\x7d' ∉ label

/-- The nodes that stand for their spelling and for nothing else. -/
inductive WellSpelled : Node → Prop
  | plain {text : Text} (nonempty : text ≠ []) (no_code : '\x60' ∉ text) (no_escape : '\\' ∉ text)
    (no_tag : includes tagOpening text = false) : WellSpelled (.plainText text)
  | code {code : Text} (nonempty : code ≠ []) (no_end : '\x60' ∉ code) :
    WellSpelled (.codeSpan code)
  | escape {c : Char} (listed : c ∈ escapable) : WellSpelled (.escapedText ['\\', c] [c])
  | reference {destination : Text} {label? : Option Text} (hdestination : IsDestination destination)
    (hlabel : ∀ label ∈ label?, IsLabel label) (inside : includes "://" destination = false) :
    WellSpelled (.linkTag (some destination) none label?)
  | address {destination : Text} {label? : Option Text} (hdestination : IsDestination destination)
    (hlabel : ∀ label ∈ label?, IsLabel label) (outside : includes "://" destination = true) :
    WellSpelled (.linkTag none (some destination) label?)

/-! ## One step of reading -/

theorem inlineFrom_special {found : List Node × Text} (h : special? text = some found) :
    inlineFrom collected text = plainNodes collected ++ found.1 ++ inlineFrom [] found.2 := by
  rw [inlineFrom]
  split
  · rename_i found' hfound'
    rw [h, Option.some.injEq] at hfound'
    rw [hfound']
  · rename_i hnone
    rw [h] at hnone
    cases hnone

theorem inlineFrom_cons (h : special? (c :: rest) = none) :
    inlineFrom collected (c :: rest) = inlineFrom (c :: collected) rest := by
  rw [inlineFrom]
  split
  · rename_i found hfound
    rw [h] at hfound
    cases hfound
  · rfl

theorem inlineFrom_nil : inlineFrom collected [] = plainNodes collected := by
  rw [inlineFrom]
  split
  · rename_i found hfound
    cases hfound
  · rfl

/-- A character is plain text unless it is the start of something else. -/
theorem special?_eq_none (hcode : c ≠ '\x60') (hescape : c ≠ '\\')
    (htag : ¬ tagOpening <+: c :: rest) : special? (c :: rest) = none := by
  unfold special?
  split
  · rename_i heq
    exact absurd ⟨_, heq.symm⟩ htag
  · rename_i heq
    exact absurd (List.cons_eq_cons.mp heq).1 hcode
  · rename_i heq
    exact absurd (List.cons_eq_cons.mp heq).1 hescape
  · rfl

/-! ## Spelling what was read -/

theorem spelled_append (ns ns' : List Node) : spelled (ns ++ ns') = spelled ns ++ spelled ns' :=
  List.flatMap_append

theorem spelled_plainNodes (collected : Text) :
    spelled (plainNodes collected) = collected.reverse := by
  unfold plainNodes
  split
  · rename_i h
    rw [List.isEmpty_iff.mp h]
    rfl
  · exact List.append_nil _

/-- Code and escapes are read from their spelling. -/
theorem eq_spelled_of_special? {found : List Node × Text} (htag : ¬ tagOpening <+: text)
    (h : special? text = some found) : text = spelled found.1 ++ found.2 := by
  unfold special? at h
  split at h
  · exact absurd (List.prefix_append tagOpening _) htag
  · rename_i rest
    dsimp only at h
    split at h
    · cases h
    · obtain ⟨after, hafter, rfl⟩ := Option.map_eq_some_iff.mp h
      simpa [spelled, spelling] using eq_append_of_cut hafter
  · split at h
    · obtain rfl := Option.some.inj h
      rfl
    · cases h
  · cases h

theorem spelled_inlineFrom (h : ¬ tagOpening <:+: text) :
    spelled (inlineFrom collected text) = collected.reverse ++ text := by
  fun_induction inlineFrom collected text with
  | case1 collected text found hfound ih =>
    have htext := eq_spelled_of_special? (fun hprefix => h hprefix.isInfix) hfound
    have hrest : found.2 <:+: text := ⟨spelled found.1, [], by rw [List.append_nil, ← htext]⟩
    rw [spelled_append, spelled_append, spelled_plainNodes, ih fun hin => h (hin.trans hrest),
      List.reverse_nil, List.nil_append, List.append_assoc, ← htext]
  | case2 collected => rw [spelled_plainNodes, List.append_nil]
  | case3 collected c rest _ ih =>
    rw [ih fun hin => h (hin.trans (List.suffix_cons c rest).isInfix), List.reverse_cons,
      List.append_assoc, List.singleton_append]

/-! ## Reading what was spelled -/

theorem dropWhile_isBlank_append (h : IsDestination destination) (rest : Text) :
    (destination ++ rest).dropWhile isBlank = destination ++ rest := by
  obtain ⟨c, destination', rfl⟩ := List.exists_cons_of_ne_nil h.nonempty
  have hc := trimStart_eq_self_iff.mp (trim_eq_self_iff.mp h.trimmed).1 c rfl
  exact List.dropWhile_cons_of_neg (by simp [hc])

theorem trim_append_space (h : IsDestination destination) :
    trim (destination ++ [' ']) = destination := by
  rw [trim, trimStart, dropWhile_isBlank_append h]
  exact (trimEnd_append_blank destination rfl).trans (trim_eq_self_iff.mp h.trimmed).2

theorem trimmed?_space (h : IsLabel label) : trimmed? (' ' :: label) = some label := by
  have htrim : trim (' ' :: label) = label :=
    (trim_append_blank (List.forall_mem_singleton.mpr isBlank_space) label).trans h.trimmed
  rw [trimmed?, htrim, if_neg (mt List.isEmpty_iff.mp h.nonempty)]

section Link

variable {label? : Option Text} (hdestination : IsDestination destination)
  (hlabel : ∀ label ∈ label?, IsLabel label)
include hdestination hlabel

/-- The body of a tag is taken apart into what it was written with. -/
theorem linkOf_linkBody : linkOf (linkBody destination label?) =
    if includes "://" destination then .linkTag none (some destination) label?
    else .linkTag (some destination) none label? := by
  have hcut : ∃ first last?, cut '|' (linkBody destination label?) = (first, last?) ∧
      trim first = destination ∧ last?.bind trimmed? = label? := by
    cases label? with
    | none =>
      refine ⟨destination, none, ?_, hdestination.trimmed, rfl⟩
      rw [linkBody, Option.elim_none, List.append_nil, cut_of_not_mem hdestination.no_bar]
    | some label =>
      have hbar : '|' ∉ destination ++ [' '] := by simp [hdestination.no_bar]
      refine ⟨destination ++ [' '], some (' ' :: label), ?_, trim_append_space hdestination,
        trimmed?_space (hlabel label rfl)⟩
      rw [← cut_append_cons hbar, List.append_assoc]
      rfl
  obtain ⟨first, last?, hparts, hfirst, hlast⟩ := hcut
  have hne : ¬ destination.isEmpty = true := mt List.isEmpty_iff.mp hdestination.nonempty
  rw [linkOf, hparts, hfirst, hlast, if_neg hne]

theorem special?_linkSpelling (rest : Text) :
    special? (linkSpelling destination label? ++ rest) =
      some ([linkOf (linkBody destination label?)], rest) := by
  have hbrace : '\x7d' ∉ linkBody destination label? := by
    cases label? with
    | none => simpa [linkBody] using hdestination.no_brace
    | some label => simp [linkBody, hdestination.no_brace, (hlabel label rfl).no_brace]
  have hname : ("link" : Text).all isWord = true := by decide
  have hend : ∀ b ∈ (' ' :: (linkBody destination label? ++ '\x7d' :: rest)).head?,
      isWord b = false := by
    rintro b ⟨⟩
    decide
  have hspelling : linkSpelling destination label? ++ rest = '\x7b' :: '@' ::
      (("link" : Text) ++ ' ' :: (linkBody destination label? ++ '\x7d' :: rest)) := by
    simp only [linkSpelling, List.cons_append, List.append_assoc, List.nil_append]
  have hbody : (linkBody destination label? ++ '\x7d' :: rest).dropWhile isBlank =
      linkBody destination label? ++ '\x7d' :: rest := by
    rw [linkBody, List.append_assoc, dropWhile_isBlank_append hdestination]
  rw [hspelling, special?, inlineTag?, takeWhile_run hname hend, dropWhile_run hname hend]
  dsimp only
  rw [if_neg (by decide), if_neg (by decide), if_pos (by decide), hbody, cut_append_cons hbrace]
  rfl

end Link

/-- A node that is no text is read from its spelling, whatever follows it. -/
theorem special?_spelling (h : WellSpelled n) (hkind : n.kind ≠ .plainText) (rest : Text) :
    special? (spelling n ++ rest) = some ([n], rest) := by
  cases h with
  | plain => exact absurd rfl hkind
  | code hne hend =>
    rw [spelling, List.cons_append, List.append_assoc, special?, List.singleton_append,
      cut_append_cons hend]
    exact if_neg (mt List.isEmpty_iff.mp hne)
  | escape hlisted =>
    exact if_pos (List.contains_iff_mem.mpr hlisted)
  | reference hdestination hlabel hinside =>
    rw [spelling, special?_linkSpelling hdestination hlabel, linkOf_linkBody hdestination hlabel,
      hinside, if_neg Bool.false_ne_true]
  | address hdestination hlabel houtside =>
    rw [spelling, special?_linkSpelling hdestination hlabel, linkOf_linkBody hdestination hlabel,
      if_pos houtside]

/-- Nothing but text starts with an at sign. -/
theorem head?_spelling_append (h : WellSpelled n) (hkind : n.kind ≠ .plainText) (rest : Text) :
    (spelling n ++ rest).head? ≠ some '@' := by
  cases h with
  | plain => exact absurd rfl hkind
  | _ =>
    intro hhead
    cases Option.some.inj hhead

/-- Plain text is collected up to its end, unless an at sign follows it. -/
theorem inlineFrom_append (hcode : '\x60' ∉ text) (hescape : '\\' ∉ text)
    (htag : ¬ tagOpening <:+: text) (hrest : rest.head? ≠ some '@') :
    inlineFrom collected (text ++ rest) = inlineFrom (text.reverse ++ collected) rest := by
  induction text generalizing collected with
  | nil => rfl
  | cons c text ih =>
    rw [List.mem_cons, not_or] at hcode hescape
    have hopening : ¬ tagOpening <+: c :: (text ++ rest) := by
      intro hprefix
      obtain ⟨hc, hnext⟩ := List.cons_prefix_cons.mp hprefix
      -- a brace at the end of the text would start a tag with an at sign behind it
      cases text with
      | nil => exact hrest (List.head?_eq_some_iff.mpr ⟨_, hnext.choose_spec.symm⟩)
      | cons d text =>
        obtain ⟨hd, -⟩ := List.cons_prefix_cons.mp hnext
        exact htag ⟨[], text, by rw [← hc, ← hd]; rfl⟩
    have htail : ¬ tagOpening <:+: text := fun hin =>
      htag (hin.trans (List.suffix_cons c text).isInfix)
    rw [List.cons_append, inlineFrom_cons (special?_eq_none (Ne.symm hcode.1) (Ne.symm hescape.1)
      hopening), ih hcode.2 hescape.2 htail, List.reverse_cons, List.append_assoc]
    rfl

theorem spelled_cons (n : Node) (ns : List Node) : spelled (n :: ns) = spelling n ++ spelled ns :=
  List.flatMap_cons

section Spelled

variable (h : ∀ n ∈ ns, WellSpelled n) (hhead : ∀ n ∈ ns.head?, n.kind ≠ .plainText)
include h hhead

theorem head?_spelled : (spelled ns).head? ≠ some '@' := by
  cases ns with
  | nil => exact nofun
  | cons n ns =>
    rw [spelled_cons]
    exact head?_spelling_append (h n (List.mem_cons_self ..)) (hhead n rfl) _

/-- The text in front of nodes that do not start with a text is a node of its own. -/
theorem inlineFrom_spelled :
    inlineFrom collected (spelled ns) = plainNodes collected ++ inline (spelled ns) := by
  cases ns with
  | nil => rw [inline, spelled, List.flatMap_nil, inlineFrom_nil, inlineFrom_nil,
      plainNodes.eq_def [], List.isEmpty_nil, if_pos rfl, List.append_nil]
  | cons n ns =>
    have hspecial := special?_spelling (h n (List.mem_cons_self ..)) (hhead n rfl) (spelled ns)
    rw [inline, spelled_cons, inlineFrom_special hspecial, inlineFrom_special hspecial,
      List.append_assoc]
    rfl

end Spelled

theorem inline_spelled (h : ∀ n ∈ ns, WellSpelled n) (hapart : TextsApart ns) :
    inline (spelled ns) = ns := by
  induction ns with
  | nil => exact inlineFrom_nil
  | cons n ns ih =>
    obtain ⟨hn, hns⟩ := List.forall_mem_cons.mp h
    obtain ⟨hnext, hapart⟩ := textsApart_cons.mp hapart
    have htail := ih hns hapart
    rw [spelled_cons]
    by_cases hkind : n.kind = .plainText
    · cases hn with
      | plain hne hcode hescape htag =>
        rw [spelling, inline, inlineFrom_append hcode hescape (includes_eq_false_iff.mp htag)
          (head?_spelled hns (hnext hkind)), List.append_nil,
          inlineFrom_spelled hns (hnext hkind), htail, plainNodes, List.reverse_reverse,
          if_neg (by simpa using hne)]
        rfl
      | _ => cases hkind
    · rw [inline, inlineFrom_special (special?_spelling hn hkind _), ← inline, htail]
      rfl

/-- Reading a line and spelling nodes undo each other: on the lines without inline tags, and on the
nodes that stand for their spelling, with no two texts in a row. -/
theorem inline_inverse_spelled :
    (∀ text, includes tagOpening text = false → spelled (inline text) = text) ∧
    ∀ ns, (∀ n ∈ ns, WellSpelled n) → TextsApart ns → inline (spelled ns) = ns := by
  constructor
  · intro text htag
    exact spelled_inlineFrom (includes_eq_false_iff.mp htag)
  · intro ns h hapart
    exact inline_spelled h hapart

/-- A line with code and an escaped backtick, which opens no code. -/
def plainExample : Text := "Call \\\x60 or \x60draw \x7b\x60 twice"

/-- Links and code that stand next to each other, and a brace in front of a link. -/
def linkedExample : List Node := [
  .plainText "See \x7b", .linkTag (some "Canvas.draw") none none,
  .linkTag none (some "https://a.b/c") (some "the \x60site\x60 | more"),
  .codeSpan "\x7b@link x\x7d", .escapedText "\\\x60" "\x60", .plainText "@last"]

theorem wellSpelled_linkedExample : ∀ n ∈ linkedExample, WellSpelled n := by
  have hname : IsDestination "Canvas.draw" := ⟨by decide, by decide, by decide, by decide⟩
  have haddress : IsDestination "https://a.b/c" := ⟨by decide, by decide, by decide, by decide⟩
  have hlabel : ∀ label ∈ some ("the \x60site\x60 | more" : Text), IsLabel label := by
    rintro label ⟨⟩
    exact ⟨by decide, by decide, by decide⟩
  simp only [linkedExample, List.forall_mem_cons]
  exact ⟨.plain (by decide) (by decide) (by decide) (by decide), .reference hname nofun (by decide),
    .address haddress hlabel (by decide), .code (by decide) (by decide), .escape (by decide),
    .plain (by decide) (by decide) (by decide) (by decide), List.forall_mem_nil _⟩

theorem inline_inverse_spelled_of_examples :
    (includes tagOpening plainExample = false ∧ spelled (inline plainExample) = plainExample) ∧
    (∀ n ∈ linkedExample, WellSpelled n) ∧ TextsApart linkedExample ∧
    inline (spelled linkedExample) = linkedExample := by
  have hplain : includes tagOpening plainExample = false := by decide
  have hapart : TextsApart linkedExample := by
    unfold TextsApart
    decide
  exact ⟨⟨hplain, inline_inverse_spelled.1 _ hplain⟩, wellSpelled_linkedExample, hapart,
    inline_inverse_spelled.2 _ wellSpelled_linkedExample hapart⟩

end ApiReference.Comment
