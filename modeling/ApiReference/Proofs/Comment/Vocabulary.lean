import ApiReference.Proofs.Comment.Fences
import ApiReference.Proofs.Comment.RoundTrip
import ApiReference.Proofs.Config.Tags
import ApiReference.Proofs.Lookup
import ApiReference.Proofs.Text.Portion

/-!
# Comments under added tags

Reading a comment asks the vocabulary only about names that stand behind an at sign in
it (`parse_congr`), since all the texts on the way to a tag are portions of the comment.
Tags that a configuration adds change what the vocabulary says of their own keys only
(`isBlock_ofTags_congr`, `modifier?_ofTags_congr`).  So a comment that mentions none of
them is read as before, with the same notices (`ofDocument_onlyTags`).
-/

namespace ApiReference.Comment

open Text Config

variable {v v' : Vocabulary} {r : Reading} {text line name key : Text} {found : Text × Text}
  {blocks modifiers blocks' modifiers' : List Text}

/-! ## Mentioned names -/

/-- A letter and any characters of words after it. -/
def IsTagName (name : Text) : Prop :=
  ∃ c rest, name = c :: rest ∧ c.isAlpha = true ∧ rest.all isWord = true

/-- A name stands behind an at sign in a text, and does not go on behind it. -/
def Mentions (text name : Text) : Prop := IsTagName name ∧ Portion ('@' :: name) text

theorem Mentions.of_portion (h : Mentions line name) (hline : Portion line text) :
    Mentions text name := ⟨h.1, h.2.trans hline⟩

theorem wordEnd_dropWhile (t : Text) : WordEnd (t.dropWhile isWord) := by
  intro c hc
  have hstop := List.head?_dropWhile_not isWord t
  rw [Option.mem_def.mp hc] at hstop
  exact hstop

/-- The tag that a text starts with is a name in it. -/
theorem mentions_of_tag? (h : tag? text = some found) : Mentions text found.1 := by
  unfold tag? at h
  split at h
  · rename_i c rest
    split at h
    · rename_i halpha
      obtain rfl := Option.some.inj h
      refine ⟨⟨c, _, rfl, halpha, List.all_takeWhile⟩, ?_⟩
      have hportion := Portion.of_append (s := '@' :: c :: rest.takeWhile isWord)
        (wordEnd_dropWhile rest)
      rwa [List.cons_append, List.cons_append, List.takeWhile_append_dropWhile] at hportion
    · cases h
  · cases h

/-- What follows a tag is a portion. -/
theorem portion_of_tag? (h : tag? text = some found) : Portion found.2 text := by
  unfold tag? at h
  split at h
  · rename_i c rest
    split at h
    · obtain rfl := Option.some.inj h
      refine .of_suffix (((List.dropWhile_suffix isBlank).trans
        (List.dropWhile_suffix isWord)).trans ?_)
      exact (List.suffix_cons c rest).trans (List.suffix_cons '@' _)
    · cases h
  · cases h

/-- The names of the tags in a text, in order. -/
def tagNames : Text → List Text
  | [] => []
  | c :: text => (tag? (c :: text)).toList.map Prod.fst ++ tagNames text

theorem mem_tagNames : name ∈ tagNames text ↔ Mentions text name := by
  constructor
  · intro h
    induction text with
    | nil => cases h
    | cons c text ih =>
      rcases List.mem_append.mp h with h | h
      · obtain ⟨found, hfound, rfl⟩ := List.mem_map.mp h
        exact mentions_of_tag? (Option.mem_toList.mp hfound)
      · exact (ih h).of_portion ((Portion.refl text).cons c)
  · rintro ⟨⟨c, word, rfl, halpha, hword⟩, before, after, rfl, hend⟩
    induction before with
    | nil =>
      have htag := tag?_append halpha hword hend
      have hfound := List.mem_map_of_mem (f := Prod.fst) (Option.mem_toList.mpr htag)
      exact List.mem_append_left _ hfound
    | cons b before ih => exact List.mem_append_right _ ih

theorem portion_dropEnd {ending : Text} (h : WordEnd ending) (t : Text) :
    Portion (dropEnd ending t) t := by
  unfold dropEnd
  split
  · rename_i rest hrest
    have ht := congrArg List.reverse (after?_eq_some.mp hrest)
    rw [List.reverse_reverse, List.reverse_append, List.reverse_reverse] at ht
    rw [ht]
    exact .of_append h
  · exact .refl t

theorem portion_unframeLine (line : Text) : Portion (unframeLine line) line := by
  have htrim := Portion.trim line
  unfold unframeLine
  split
  · rename_i rest hrest
    rw [hrest] at htrim
    exact (((Portion.trimEnd rest).cons ' ').cons '*').trans htrim
  · rename_i rest _ hrest
    rw [hrest] at htrim
    exact ((Portion.trimEnd rest).cons '*').trans htrim
  · exact htrim

/-- The lines in the frame of a comment are portions of it. -/
theorem portion_of_mem_unframe (h : line ∈ unframe text) : Portion line text := by
  obtain ⟨framed, hframed, rfl⟩ := List.mem_map.mp h
  have hbody : Portion ((after? "/**" (trim text)).getD (trim text)) (trim text) := by
    cases hafter : after? "/**" (trim text) with
    | none => exact .refl _
    | some rest => exact .of_after? hafter
  have hend : WordEnd ("*/" : Text) := wordEnd_cons.mpr rfl
  exact (portion_unframeLine framed).trans ((portion_of_mem_lines hframed).trans
    ((portion_dropEnd hend _).trans (hbody.trans (.trim text))))

/-! ## Vocabularies that agree -/

/-- Two vocabularies say the same of a key. -/
structure Vocabulary.AgreeOn (v v' : Vocabulary) (key : Text) : Prop where
  modifier : v.modifier? key = v'.modifier? key
  block : v.isBlock key = v'.isBlock key

theorem readTags_congr (h : ∀ name, Mentions text name → v.AgreeOn v' (upper name)) :
    readTags v r text = readTags v' r text := by
  fun_induction readTags v r text with
  | case1 r text hnone => rw [readTags_of_eq_none hnone]
  | case2 r text found hfound spelling hspelling ih =>
    have hagree := h found.1 (mentions_of_tag? hfound)
    have hrest := ih fun name hname => h name (hname.of_portion (portion_of_tag? hfound))
    rw [readTags_of_eq_some hfound, ← hagree.modifier, hspelling]
    exact hrest
  | case3 r text found hfound hnone hblock =>
    have hagree := h found.1 (mentions_of_tag? hfound)
    rw [readTags_of_eq_some hfound, ← hagree.modifier, hnone]
    exact (if_pos (hagree.block ▸ hblock)).symm
  | case4 r text found hfound hnone hblock =>
    have hagree := h found.1 (mentions_of_tag? hfound)
    rw [readTags_of_eq_some hfound, ← hagree.modifier, hnone]
    exact (if_neg (hagree.block ▸ hblock)).symm

theorem readLine_congr (h : ∀ name, Mentions line name → v.AgreeOn v' (upper name)) :
    readLine v r line = readLine v' r line := by
  have htags : ∀ r, readTags v r (trim line) = readTags v' r (trim line) := fun r =>
    readTags_congr fun name hname => h name (hname.of_portion (.trim line))
  unfold readLine
  rw [htags]

theorem readLines_congr {lines : List Text}
    (h : ∀ line ∈ lines, ∀ name, Mentions line name → v.AgreeOn v' (upper name)) :
    readLines v r lines = readLines v' r lines := by
  induction lines generalizing r with
  | nil => rfl
  | cons line lines ih =>
    obtain ⟨hline, hlines⟩ := List.forall_mem_cons.mp h
    rw [readLines, readLines, readLine_congr hline]
    exact congrArg _ (funext fun r => ih hlines)

/-- Comments are read alike where two vocabularies agree on all names that they mention. -/
theorem parse_congr (h : ∀ name, Mentions text name → v.AgreeOn v' (upper name)) :
    parse v text = parse v' text := by
  rw [parse, parse, readLines_congr fun line hline name hname =>
    h name (hname.of_portion (portion_of_mem_unframe hline))]

/-! ## Added tags -/

namespace Vocabulary

/-- The vocabulary of the given tags. -/
def ofTags (blocks modifiers : List Text) : Vocabulary :=
  ⟨blocks.map upper, modifiers.map fun tag => (upper tag, tag)⟩

theorem mapM_asText (ts : List Text) : (ts.map Json.text).mapM Json.asText = .ok ts := by
  induction ts with
  | nil => rfl
  | cons t ts ih =>
    rw [List.map_cons, List.mapM_cons, ih]
    rfl

theorem ofConfig_withTags (blocks modifiers : List Text) :
    ofConfig (withTags blocks modifiers) = .ok (ofTags blocks modifiers) := by
  have hblocks : tagsOf (.object (tagSettings blocks modifiers)) "block_tags" = .ok blocks :=
    mapM_asText blocks
  have hmodifiers : tagsOf (.object (tagSettings blocks modifiers)) "modifier_tags" =
      .ok modifiers := mapM_asText modifiers
  have hsettings : (orStandard (withTags blocks modifiers)).index "comment" =
      .ok (.object (tagSettings blocks modifiers)) := rfl
  rw [ofConfig, hsettings, Except.ok_bind, hblocks, Except.ok_bind, hmodifiers]
  rfl

/-- Whether a key opens blocks depends on the tags with this key. -/
theorem isBlock_ofTags_congr (h : ∀ t, upper t = key → (t ∈ blocks ↔ t ∈ blocks')) :
    (ofTags blocks modifiers).isBlock key = (ofTags blocks' modifiers').isBlock key := by
  rw [Bool.eq_iff_iff, isBlock, isBlock, List.contains_iff_mem, List.contains_iff_mem, ofTags,
    ofTags, List.mem_map, List.mem_map]
  constructor
  · rintro ⟨t, ht, hkey⟩
    exact ⟨t, (h t hkey).mp ht, hkey⟩
  · rintro ⟨t, ht, hkey⟩
    exact ⟨t, (h t hkey).mpr ht, hkey⟩

/-- The one modifier tag with a key gives the spelling. -/
theorem modifier?_ofTags_eq_some
    (h : ∀ s ∈ modifiers, ∀ t ∈ modifiers, upper s = key → upper t = key → s = t) :
    (ofTags blocks modifiers).modifier? key = some name ↔ name ∈ modifiers ∧ upper name = key := by
  have hentries (s : Text) :
      (key, s) ∈ (modifiers.map fun tag => (upper tag, tag)).reverse ↔
        s ∈ modifiers ∧ upper s = key := by
    rw [List.mem_reverse, List.mem_map]
    constructor
    · rintro ⟨t, ht, heq⟩
      obtain ⟨rfl, rfl⟩ := Prod.mk.inj heq
      exact ⟨ht, rfl⟩
    · rintro ⟨hs, rfl⟩
      exact ⟨s, hs, rfl⟩
  rw [modifier?, ofTags, lookup_eq_some_iff_of_unique, hentries]
  intro s t hs ht
  rw [hentries] at hs ht
  exact h s hs.1 t ht.1 hs.2 ht.2

/-- The spelling for a key depends on the tags with this key. -/
theorem modifier?_ofTags_congr (h : ∀ t, upper t = key → (t ∈ modifiers ↔ t ∈ modifiers'))
    (hone : ∀ s ∈ modifiers, ∀ t ∈ modifiers, upper s = key → upper t = key → s = t) :
    (ofTags blocks modifiers).modifier? key = (ofTags blocks' modifiers').modifier? key := by
  have hone' : ∀ s ∈ modifiers', ∀ t ∈ modifiers', upper s = key → upper t = key → s = t :=
    fun s hs t ht hs' ht' => hone s ((h s hs').mpr hs) t ((h t ht').mpr ht) hs' ht'
  ext s
  rw [modifier?_ofTags_eq_some hone, modifier?_ofTags_eq_some hone']
  exact and_congr_left (h s)

end Vocabulary

theorem ofDocument_of_ofConfig {config : Json} (h : Vocabulary.ofConfig config = .ok v)
    (text : Text) : ofDocument config (.text text) = liftM (parse v text) := by
  rw [ofDocument, h]
  rfl

theorem eq_of_upper_modifierTags : ∀ s ∈ modifierTags, ∀ t ∈ modifierTags,
    upper s = upper t → s = t := fun _ hs _ ht h =>
  List.inj_on_of_nodup_map (by decide : (modifierTags.map upper).Nodup) hs ht h

/-- Tags that a configuration adds change nothing in a comment that mentions none of them, nor the
notices. -/
theorem ofDocument_onlyTags (blocks modifiers : List Text) (text : Text)
    (h : ∀ name, Mentions text name → ∀ tag ∈ blocks ++ modifiers, upper name ≠ upper tag) :
    ∃ config, Json.merge standard (onlyTags blocks modifiers) = .ok config ∧
      ofDocument config (.text text) = ofDocument standard (.text text) ∧
      ∃ comment, (ofDocument standard (.text text)).outcome = .ok comment := by
  obtain ⟨allBlocks, allModifiers, hmerge, hblocks, hmodifiers⟩ :=
    merge_onlyTags blockTags modifierTags blocks modifiers
  have hstandard := ofDocument_of_ofConfig
    (Vocabulary.ofConfig_withTags blockTags modifierTags) text
  have hadded := ofDocument_of_ofConfig (Vocabulary.ofConfig_withTags allBlocks allModifiers) text
  refine ⟨_, hmerge, ?_, _, congrArg Traced.outcome hstandard⟩
  have hparse : parse (.ofTags blockTags modifierTags) text =
      parse (.ofTags allBlocks allModifiers) text := by
    refine parse_congr fun name hname => ?_
    have hfree := h name hname
    constructor
    · refine Vocabulary.modifier?_ofTags_congr (fun t ht => ?_) fun s hs t ht hs' ht' => ?_
      · rw [hmodifiers, or_iff_left]
        exact fun hmem => hfree t (List.mem_append_right _ hmem) ht.symm
      · exact eq_of_upper_modifierTags s hs t ht (hs'.trans ht'.symm)
    · refine Vocabulary.isBlock_ofTags_congr fun t ht => ?_
      rw [hblocks, or_iff_left]
      exact fun hmem => hfree t (List.mem_append_left _ hmem) ht.symm
  rw [hadded, ← hparse]
  exact hstandard.symm

/-- A comment with modifiers, a tag that is none, and a block. -/
def sumText : Text := "/**\n * Adds. \n * @alpha @Virtual @foo bar\n * @Returns One of x@see.\n */"

theorem ofDocument_onlyTags_of_sum :
    tagNames sumText = ["alpha", "Virtual", "foo", "Returns", "see"] ∧
    ∃ config, Json.merge standard (onlyTags ["bar", "Bar", "ALPHA2"] ["Beta", "BETA", "X"]) =
        .ok config ∧
      ofDocument config (.text sumText) = ofDocument standard (.text sumText) ∧
      ∃ comment, (ofDocument standard (.text sumText)).outcome = .ok comment := by
  have hfree : ∀ name ∈ tagNames sumText,
      ∀ tag ∈ (["bar", "Bar", "ALPHA2"] ++ ["Beta", "BETA", "X"] : List Text),
        upper name ≠ upper tag := by
    decide
  refine ⟨by decide, ofDocument_onlyTags _ _ sumText fun name hname => ?_⟩
  exact hfree name (mem_tagNames.mpr hname)

end ApiReference.Comment
