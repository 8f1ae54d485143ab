import ApiReference.Proofs.Comment.Vocabulary
import Mathlib.Algebra.Group.Nat.Even

/-!
# Lines of modifier tags

A line that has nothing but modifier tags on it is never recorded, so outside of code it
changes the modifiers of a reading and nothing else (`readLine_modifierLine`).  Reading
never looks at the modifiers it has found: two readings that differ in them alone stay so,
with the same notices (`Marked.readLines`), and their comments differ in them alone too
(`ofReading_marked`).  Hence such a line can stand anywhere outside of code, even between
a tag and its text (`ofDocument_modifierLine`).
-/

namespace ApiReference

open Text

/-- A list without duplicates that has the members of another one and the added ones. -/
structure Comment.Adds (added ms ms' : List Text) : Prop where
  nodup : ms.Nodup
  nodup' : ms'.Nodup
  mem_iff : ∀ t, t ∈ ms' ↔ t ∈ ms ∨ t ∈ added

/-- A second comment differs from the first in its modifiers only, and has those added. -/
structure Comment.Marked (added : List Text) (c c' : Comment) : Prop where
  others : c' = { c with modifiers := c'.modifiers }
  modifiers : Comment.Adds added c.modifiers c'.modifiers

namespace Comment

variable {v : Vocabulary} {r r' r'' : Reading} {name rest : Text}
  {added added' ms ms' ms'' before : List Text}

/-! ## Added modifiers -/

namespace Adds

theorem refl (h : ms.Nodup) : Adds [] ms ms := ⟨h, h, by simp⟩

theorem trans (h : Adds added ms ms') (h' : Adds added' ms' ms'') :
    Adds (added ++ added') ms ms'' where
  nodup := h.nodup
  nodup' := h'.nodup'
  mem_iff t := by
    rw [h'.mem_iff, h.mem_iff, List.mem_append, or_assoc]

end Adds

/-- A second reading differs from the first in its modifiers only, and has those added. -/
structure Reading.Marked (added : List Text) (r r' : Reading) : Prop where
  others : r' = { r with modifiers := r'.modifiers }
  modifiers : Adds added r.modifiers r'.modifiers

namespace Reading

theorem modifiers_addModifier (r : Reading) (tag : Text) :
    (r.addModifier tag).modifiers =
      if r.modifiers.contains tag then r.modifiers else r.modifiers ++ [tag] := by
  unfold addModifier
  split
  · rfl
  · rfl

theorem others_addModifier (r : Reading) (tag : Text) :
    r.addModifier tag = { r with modifiers := (r.addModifier tag).modifiers } := by
  unfold addModifier
  split
  · rfl
  · rfl

theorem adds_addModifier (h : r.modifiers.Nodup) (tag : Text) :
    Adds [tag] r.modifiers (r.addModifier tag).modifiers := by
  rw [modifiers_addModifier]
  split
  · rename_i hold
    refine ⟨h, h, fun t => ⟨Or.inl, ?_⟩⟩
    rintro (ht | ht)
    · exact ht
    · rw [List.mem_singleton.mp ht]
      exact List.contains_iff_mem.mp hold
  · rename_i hnew
    have hnew : tag ∉ r.modifiers := fun hmem => hnew (List.contains_iff_mem.mpr hmem)
    refine ⟨h, ?_, fun t => List.mem_append⟩
    rw [← List.concat_eq_append]
    exact h.concat hnew

/-- Adds some modifiers one after the other. -/
def addModifiers (r : Reading) (tags : List Text) : Reading := tags.foldl addModifier r

namespace Marked

theorem refl (h : r.modifiers.Nodup) : r.Marked [] r := ⟨rfl, .refl h⟩

theorem trans (h : r.Marked added r') (h' : r'.Marked added' r'') :
    r.Marked (added ++ added') r'' where
  others := by rw [h'.others, h.others]
  modifiers := h.modifiers.trans h'.modifiers

theorem addModifier_self (h : r.modifiers.Nodup) (tag : Text) :
    r.Marked [tag] (r.addModifier tag) := ⟨r.others_addModifier tag, adds_addModifier h tag⟩

theorem addModifiers_self (h : r.modifiers.Nodup) (tags : List Text) :
    r.Marked tags (r.addModifiers tags) := by
  induction tags generalizing r with
  | nil => exact refl h
  | cons tag tags ih =>
    have hfirst := addModifier_self h tag
    exact hfirst.trans (ih hfirst.modifiers.nodup')

theorem fenced_eq (h : r.Marked added r') : r'.fenced = r.fenced := by
  rw [h.others]

/-- A modifier that both readings find leaves the same ones added. -/
theorem addModifier (h : r.Marked added r') (tag : Text) :
    (r.addModifier tag).Marked added (r'.addModifier tag) where
  others := by
    rw [r'.others_addModifier, r.others_addModifier, h.others]
  modifiers := by
    have hfirst := adds_addModifier h.modifiers.nodup tag
    have hsecond := adds_addModifier h.modifiers.nodup' tag
    refine ⟨hfirst.nodup', hsecond.nodup', fun t => ?_⟩
    rw [hfirst.mem_iff, hsecond.mem_iff, h.modifiers.mem_iff, or_right_comm]

theorem addLine (h : r.Marked added r') (line : Text) :
    (r.addLine line).Marked added (r'.addLine line) where
  others := by
    rw [h.others]
    rfl
  modifiers := h.modifiers

theorem openBlock (h : r.Marked added r') (tag : Text) :
    (r.openBlock tag).Marked added (r'.openBlock tag) where
  others := by
    rw [h.others]
    rfl
  modifiers := h.modifiers

theorem toggle (h : r.Marked added r') :
    Marked added { r with fenced := !r.fenced } { r' with fenced := !r'.fenced } where
  others := by
    rw [h.others]
  modifiers := h.modifiers

end Marked

end Reading

/-! ## Readings that differ in their modifiers -/

/-- Two computations give the same notices, and values that are related. -/
structure Coupled {α : Type} (R : α → α → Prop) (x y : Noted α) : Prop where
  notices : y.notices = x.notices
  value : R x.value y.value

namespace Coupled

variable {α β : Type} {R : α → α → Prop} {S : β → β → Prop} {x y : Noted α} {f g : α → Noted β}

theorem pure {a b : α} (h : R a b) : Coupled R (Pure.pure a) (Pure.pure b) := ⟨rfl, h⟩

theorem bind (h : Coupled R x y) (hf : ∀ a b, R a b → Coupled S (f a) (g b)) :
    Coupled S (x >>= f) (y >>= g) where
  notices := by
    rw [Noted.notices_bind, Noted.notices_bind, h.notices, (hf _ _ h.value).notices]
  value := (hf _ _ h.value).value

end Coupled

namespace Reading.Marked

/-- Tags are read alike, whatever modifiers were found before them. -/
theorem readTags (h : r.Marked added r') (v : Vocabulary) (text : Text) :
    Coupled (fun found found' => found.1.Marked added found'.1 ∧ found'.2 = found.2)
      (readTags v r text) (readTags v r' text) := by
  fun_induction Comment.readTags v r text generalizing r' with
  | case1 r text htag =>
    rw [readTags_of_eq_none htag]
    exact .pure ⟨h, rfl⟩
  | case2 r text found htag spelling hspelling ih =>
    rw [readTags_of_eq_some htag, hspelling]
    exact ih (h.addModifier spelling)
  | case3 r text found htag hnone hblock =>
    rw [readTags_of_eq_some htag, hnone]
    dsimp only
    rw [if_pos hblock]
    exact .pure ⟨h.openBlock found.1, rfl⟩
  | case4 r text found htag hnone hblock =>
    rw [readTags_of_eq_some htag, hnone]
    dsimp only
    rw [if_neg hblock]
    exact ⟨rfl, h, rfl⟩

theorem readLine (h : r.Marked added r') (v : Vocabulary) (line : Text) :
    Coupled (Marked added) (readLine v r line) (readLine v r' line) := by
  unfold Comment.readLine
  split
  · exact .pure (h.toggle.addLine line)
  · rw [h.fenced_eq]
    split
    · exact .pure (h.addLine line)
    · refine (h.readTags v _).bind ?_
      rintro ⟨s, rest⟩ ⟨s', rest'⟩ ⟨hs, rfl⟩
      dsimp only at hs ⊢
      split
      · exact .pure hs
      · exact .pure (hs.addLine _)

/-- Readings that differ in their modifiers stay so, and the same modifiers stay added. -/
theorem readLines (h : r.Marked added r') (v : Vocabulary) (lines : List Text) :
    Coupled (Marked added) (readLines v r lines) (readLines v r' lines) := by
  induction lines generalizing r r' with
  | nil => exact .pure h
  | cons line lines ih => exact (h.readLine v line).bind fun _ _ hline => ih hline

end Reading.Marked

theorem nodup_readLines (h : r.modifiers.Nodup) (v : Vocabulary) (lines : List Text) :
    (readLines v r lines).value.modifiers.Nodup :=
  ((Reading.Marked.refl h).readLines v lines).value.modifiers.nodup

/-! ## Their comments -/

theorem addDraft_modifiers (c : Comment) (ms : List Text) (d : Draft) :
    addDraft { c with modifiers := ms } d = { addDraft c d with modifiers := ms } := by
  unfold addDraft
  dsimp only
  split_ifs <;> rfl

theorem foldl_addDraft_modifiers (c : Comment) (ms : List Text) (ds : List Draft) :
    ds.foldl addDraft { c with modifiers := ms } =
      { ds.foldl addDraft c with modifiers := ms } := by
  induction ds generalizing c with
  | nil => rfl
  | cons d ds ih => rw [List.foldl_cons, List.foldl_cons, addDraft_modifiers, ih]

theorem ofReading_modifiers (r : Reading) (ms : List Text) :
    ofReading { r with modifiers := ms } = { ofReading r with modifiers := ms } := by
  have hdrafts : Reading.drafts { r with modifiers := ms } = r.drafts := rfl
  obtain ⟨d, ds, hcons⟩ := List.exists_cons_of_ne_nil
    (show r.drafts ≠ [] from List.concat_ne_nil _ _)
  rw [ofReading, ofReading, hdrafts, hcons]
  exact foldl_addDraft_modifiers { empty with summary := _, modifiers := r.modifiers } ms ds

theorem modifiers_ofReading (r : Reading) : (ofReading r).modifiers = r.modifiers :=
  congrArg Comment.modifiers (ofReading_modifiers r r.modifiers)

theorem ofReading_marked (h : r.Marked added r') : (ofReading r).Marked added (ofReading r') where
  others := by
    rw [modifiers_ofReading, ← ofReading_modifiers, ← h.others]
  modifiers := by
    rw [modifiers_ofReading, modifiers_ofReading]
    exact h.modifiers

/-! ## Lines of modifier tags -/

/-- A modifier tag as it stands in a line, with the blanks behind it. -/
structure ModifierTag (v : Vocabulary) where
  name : Text
  gap : Text
  /-- The spelling that the configuration gives the tag. -/
  spelling : Text
  isTagName : IsTagName name
  configured : v.modifier? (upper name) = some spelling
  blank : ∀ c ∈ gap, isBlank c = true
  unbroken : Unbroken gap

/-- A line that has nothing but modifier tags on it. -/
structure ModifierLine (v : Vocabulary) where
  indent : Text
  tags : List (ModifierTag v)
  nonempty : tags ≠ []
  blank : ∀ c ∈ indent, isBlank c = true
  unbroken : Unbroken indent

def ModifierTag.text (tag : ModifierTag v) : Text := '@' :: tag.name ++ tag.gap

namespace ModifierLine

def text (line : ModifierLine v) : Text := line.indent ++ line.tags.flatMap ModifierTag.text

/-- The configured spellings of the tags. -/
def spellings (line : ModifierLine v) : List Text := line.tags.map ModifierTag.spelling

end ModifierLine

namespace IsTagName

theorem isBlank_eq_false_of_mem (h : IsTagName name) {c : Char} (hc : c ∈ name) :
    isBlank c = false := by
  obtain ⟨d, word, rfl, hd, hword⟩ := h
  rcases List.mem_cons.mp hc with rfl | hc
  · exact isBlank_eq_false_of_codes (by decide) hd
  · exact isBlank_eq_false_of_isWord (List.all_eq_true.mp hword c hc)

theorem tag?_append (h : IsTagName name) (hrest : WordEnd rest) :
    tag? ('@' :: name ++ rest) = some (name, trimStart rest) := by
  obtain ⟨d, word, rfl, hd, hword⟩ := h
  exact Comment.tag?_append hd hword hrest

/-- No blank is trimmed in front of what follows a tag name. -/
theorem trimEnd_append (h : IsTagName name) (rest : Text) :
    trimEnd ('@' :: name ++ rest) = '@' :: name ++ trimEnd rest := by
  by_cases hrest : trimEnd rest = []
  · have hname : trimEnd ('@' :: name) = '@' :: name := by
      refine trimEnd_eq_self_iff.mpr fun c hc => ?_
      rcases List.mem_cons.mp (List.mem_of_getLast? hc) with rfl | hc
      · rfl
      · exact h.isBlank_eq_false_of_mem hc
    rw [trimEnd_append_blank _ hrest, hname, hrest, List.append_nil]
  · exact Text.trimEnd_append _ hrest

end IsTagName

theorem wordEnd_trimEnd (h : WordEnd rest) : WordEnd (trimEnd rest) := by
  obtain ⟨blanks, hblanks⟩ : trimEnd rest <+: rest := List.rdropWhile_prefix isBlank rest
  rw [← hblanks] at h
  cases htrimmed : trimEnd rest with
  | nil => exact wordEnd_nil
  | cons c t =>
    rw [htrimmed] at h
    exact wordEnd_cons.mpr (wordEnd_cons.mp h)

theorem wordEnd_tags (tags : List (ModifierTag v)) : WordEnd (tags.flatMap ModifierTag.text) := by
  cases tags with
  | nil => exact wordEnd_nil
  | cons tag tags => exact wordEnd_cons.mpr rfl

/-- The first tag is taken, with all the blanks behind it. -/
theorem tag?_tags (tag : ModifierTag v) (tags : List (ModifierTag v)) :
    tag? (trim ((tag :: tags).flatMap ModifierTag.text)) =
      some (tag.name, trim (tags.flatMap ModifierTag.text)) := by
  have hsplit : (tag :: tags).flatMap ModifierTag.text =
      '@' :: tag.name ++ (tag.gap ++ tags.flatMap ModifierTag.text) := by
    rw [List.flatMap_cons, ModifierTag.text, List.append_assoc]
  have hend := (wordEnd_of_isBlank tag.blank).append (wordEnd_tags tags)
  have hstart (t : Text) : trim ('@' :: tag.name ++ t) = trimEnd ('@' :: tag.name ++ t) :=
    congrArg trimEnd (trimStart_cons rfl _)
  rw [hsplit, hstart, tag.isTagName.trimEnd_append,
    tag.isTagName.tag?_append (wordEnd_trimEnd hend), trimStart_trimEnd,
    trim_append_blank tag.blank]

/-- Modifier tags are all taken, and nothing is left of the line. -/
theorem readTags_tags (r : Reading) (tags : List (ModifierTag v)) :
    readTags v r (trim (tags.flatMap ModifierTag.text)) =
      pure (r.addModifiers (tags.map ModifierTag.spelling), []) := by
  induction tags generalizing r with
  | nil => exact readTags_of_eq_none rfl
  | cons tag tags ih =>
    rw [readTags_of_eq_some (tag?_tags tag tags), tag.configured]
    exact ih (r.addModifier tag.spelling)

namespace ModifierLine

theorem trim_text (line : ModifierLine v) :
    trim line.text = trim (line.tags.flatMap ModifierTag.text) :=
  trim_append_blank line.blank _

theorem unbroken_text (line : ModifierLine v) : Unbroken line.text := by
  refine line.unbroken.append fun c hc => ?_
  obtain ⟨tag, -, hc⟩ := List.mem_flatMap.mp hc
  have hname : Unbroken ('@' :: tag.name) := .of_not_isBlank fun d hd => by
    rcases List.mem_cons.mp hd with rfl | hd
    · rfl
    · exact tag.isTagName.isBlank_eq_false_of_mem hd
  exact hname.append tag.unbroken c hc

/-- The line starts with a tag, so that it is neither blank nor a fence. -/
theorem exists_trim_text (line : ModifierLine v) : ∃ t, trim line.text = '@' :: t := by
  obtain ⟨tag, tags, htags⟩ := List.exists_cons_of_ne_nil line.nonempty
  have htag := tag?_tags tag tags
  rw [← htags, ← line.trim_text] at htag
  exact eq_cons_of_tag? htag

end ModifierLine

theorem isFenceLine_trimEnd (line : Text) : isFenceLine (trimEnd line) = isFenceLine line := by
  rw [isFenceLine, trim_trimEnd, isFenceLine]

/-- Outside of code, a line of modifier tags adds its modifiers and is not recorded. -/
theorem readLine_modifierLine (h : r.fenced = false) (line : ModifierLine v) :
    readLine v r (trimEnd line.text) = pure (r.addModifiers line.spellings) := by
  obtain ⟨t, ht⟩ := line.exists_trim_text
  have hfence : isFenceLine (trimEnd line.text) = false := by
    rw [isFenceLine_trimEnd, isFenceLine, ht]
    rfl
  have hblank : allBlank (trimEnd line.text) = false := by
    by_contra hall
    rw [Bool.not_eq_false, allBlank, List.all_eq_true] at hall
    have hempty := trim_append_blank hall []
    rw [List.append_nil, trim_trimEnd, ht] at hempty
    cases hempty
  rw [readLine, hfence, if_neg Bool.false_ne_true, h, if_neg Bool.false_ne_true, trim_trimEnd,
    line.trim_text, readTags_tags, pure_bind]
  dsimp only
  rw [hblank]
  rfl

/-! ## Being inside a fence -/

theorem fenced_readLine (v : Vocabulary) (r : Reading) (line : Text) :
    (readLine v r line).value.fenced = if isFenceLine line then !r.fenced else r.fenced := by
  rw [← fenced_taken v r line, readLine_value]
  cases (taken v r line).2 with
  | none => rfl
  | some kept => rfl

/-- An even number of fences leaves a reading where it was. -/
theorem fenced_readLines (v : Vocabulary) (r : Reading) (lines : List Text) :
    (readLines v r lines).value.fenced = r.fenced ↔ Even (lines.countP isFenceLine) := by
  induction lines generalizing r with
  | nil => simp [readLines]
  | cons line lines ih =>
    have hrest := ih (readLine v r line).value
    rw [fenced_readLine] at hrest
    rw [readLines, Noted.value_bind, List.countP_cons]
    cases hfence : isFenceLine line with
    | true =>
      rw [hfence, if_pos rfl] at hrest
      rw [if_pos rfl, Nat.even_add_one, ← hrest]
      cases r.fenced <;> simp
    | false =>
      rw [hfence, if_neg Bool.false_ne_true] at hrest
      rw [if_neg Bool.false_ne_true]
      exact hrest

/-! ## Comments with a line of modifier tags -/

theorem readLines_modifierLine (hr : r.modifiers.Nodup) (line : ModifierLine v)
    (houtside : (readLines v r before).value.fenced = false) (after : List Text) :
    Coupled (Reading.Marked line.spellings) (readLines v r (before ++ after))
      (readLines v r (before ++ trimEnd line.text :: after)) := by
  have hsame : Coupled (fun s s' => s = (readLines v r before).value ∧ s' = s)
      (readLines v r before) (readLines v r before) := ⟨rfl, rfl, rfl⟩
  rw [readLines_append, readLines_append]
  refine hsame.bind ?_
  rintro s s' ⟨rfl, rfl⟩
  have hmarked := Reading.Marked.addModifiers_self (nodup_readLines hr v before) line.spellings
  rw [readLines, readLine_modifierLine houtside, pure_bind]
  exact hmarked.readLines v after

theorem parse_framed (v : Vocabulary) {lines : List Text} (h : ∀ line ∈ lines, Unbroken line) :
    parse v (framed lines) =
      readLines v .initial ([] :: lines.map trimEnd ++ [[]]) >>= fun r => pure (ofReading r) := by
  rw [parse, unframe_framed h]

theorem parse_modifierLine (line : ModifierLine v) (before after : List Text)
    (hunbroken : ∀ l ∈ before ++ after, Unbroken l)
    (houtside : Even (before.countP isFenceLine)) :
    Coupled (Marked line.spellings) (parse v (framed (before ++ after)))
      (parse v (framed (before ++ line.text :: after))) := by
  obtain ⟨hbefore, hafter⟩ := List.forall_mem_append.mp hunbroken
  have hall : ∀ l ∈ before ++ line.text :: after, Unbroken l :=
    List.forall_mem_append.mpr ⟨hbefore, List.forall_mem_cons.mpr ⟨line.unbroken_text, hafter⟩⟩
  have hfences : ([] :: before.map trimEnd).countP isFenceLine = before.countP isFenceLine := by
    rw [List.countP_cons_of_neg (by decide), List.countP_map]
    exact congrArg (List.countP · before) (funext isFenceLine_trimEnd)
  have hfenced := (fenced_readLines v .initial ([] :: before.map trimEnd)).mpr (hfences ▸ houtside)
  have hlines := readLines_modifierLine List.nodup_nil line hfenced (after.map trimEnd ++ [[]])
  rw [parse_framed v hunbroken, parse_framed v hall, List.map_append, List.map_append,
    List.map_cons]
  simp only [List.cons_append, List.append_assoc] at hlines ⊢
  exact hlines.bind fun _ _ h => .pure (ofReading_marked h)

/-- Outside of code, a line of modifier tags changes nothing in a comment but its modifiers, nor the
notices. -/
theorem ofDocument_modifierLine {config : Json} (hconfig : Vocabulary.ofConfig config = .ok v)
    (line : ModifierLine v) (before after : List Text)
    (hunbroken : ∀ l ∈ before ++ after, Unbroken l)
    (houtside : Even (before.countP isFenceLine)) :
    ∃ c c',
      (ofDocument config (.text (framed (before ++ after)))).outcome = .ok c ∧
      (ofDocument config (.text (framed (before ++ line.text :: after)))).outcome = .ok c' ∧
      c.Marked line.spellings c' ∧
      (ofDocument config (.text (framed (before ++ line.text :: after)))).notices =
        (ofDocument config (.text (framed (before ++ after)))).notices := by
  have hparse := parse_modifierLine line before after hunbroken houtside
  rw [ofDocument_of_ofConfig hconfig, ofDocument_of_ofConfig hconfig]
  refine ⟨_, _, Traced.outcome_liftNoted _, Traced.outcome_liftNoted _, hparse.value, ?_⟩
  exact congrArg (· ++ []) hparse.notices

/-- A comment with code, a parameter whose text stands on the line behind the tag, and a
paragraph of two lines. -/
def paramExample : List Text :=
  ["Adds.", "\x60\x60\x60", "@alpha", "\x60\x60\x60", "@param a -", "  the first", "one of two."]

/-- A line with four tags on it, one of them twice, and in more than one spelling. -/
def modifierExample : ModifierLine standardVocabulary where
  indent := "  "
  tags := [
    ⟨"beta", "  ", "beta", ⟨'b', "eta", rfl, rfl, rfl⟩, rfl, List.all_eq_true.mp rfl, by decide⟩,
    ⟨"EventProperty", [], "eventProperty", ⟨'E', "ventProperty", rfl, rfl, rfl⟩, by decide,
      List.all_eq_true.mp rfl, by decide⟩,
    ⟨"alpha", "\t", "alpha", ⟨'a', "lpha", rfl, rfl, rfl⟩, rfl, List.all_eq_true.mp rfl,
      by decide⟩,
    ⟨"BETA", " ", "beta", ⟨'B', "ETA", rfl, rfl, rfl⟩, by decide, List.all_eq_true.mp rfl,
      by decide⟩]
  nonempty := List.cons_ne_nil _ _
  blank := List.all_eq_true.mp rfl
  unbroken := by decide

theorem ofDocument_modifierLine_of_param :
    modifierExample.text = ("  @beta  @EventProperty@alpha\t@BETA " : Text) ∧
    ∃ c c',
      (ofDocument .null (.text (framed paramExample))).outcome = .ok c ∧
      (ofDocument .null (.text (framed (paramExample.take 5 ++ modifierExample.text ::
        paramExample.drop 5)))).outcome = .ok c' ∧
      c.Marked ["beta", "eventProperty", "alpha", "beta"] c' ∧
      (ofDocument .null (.text (framed (paramExample.take 5 ++ modifierExample.text ::
        paramExample.drop 5)))).notices =
        (ofDocument .null (.text (framed paramExample))).notices :=
  ⟨rfl, ofDocument_modifierLine ofConfig_null modifierExample (paramExample.take 5)
    (paramExample.drop 5) (by decide) (by decide)⟩

end Comment

end ApiReference
