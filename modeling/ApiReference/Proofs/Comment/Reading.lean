import ApiReference.Comment.Parse
import ApiReference.Proofs.Comment.Passages

/-!
# Reading lines into drafts

The lines of whole passages are added to the draft that is open, tags in their code
included (`readLines_linesOf`).  A block tag closes the draft, and what follows the
tag on its line opens the next one (`readLine_block`).
-/

namespace ApiReference.Comment

open Text

variable {v : Vocabulary} {r : Reading} {s t text rest tag name : Text} {c : Char}
  {lines : List Text}

namespace Reading

def addLines (r : Reading) (lines : List Text) : Reading :=
  { r with current := { r.current with lines := r.current.lines ++ lines } }

theorem addLines_nil (r : Reading) : r.addLines [] = r := by
  rw [addLines, List.append_nil]

theorem addLines_addLines (r : Reading) (s t : List Text) :
    (r.addLines s).addLines t = r.addLines (s ++ t) := by
  simp only [addLines, List.append_assoc]

theorem addLine_eq (r : Reading) (line : Text) : r.addLine line = r.addLines [line] := rfl

/-- A line goes to the last draft. -/
theorem drafts_addLine {drafts : List Draft} {draft : Draft} (h : r.drafts = drafts ++ [draft])
    (line : Text) :
    (r.addLine line).drafts = drafts ++ [⟨draft.tag, draft.lines ++ [line]⟩] := by
  obtain ⟨hclosed, hcurrent⟩ := List.append_inj' h rfl
  obtain rfl := List.singleton_inj.mp hcurrent
  rw [← hclosed]
  rfl

theorem drafts_openBlock (r : Reading) (tag : Text) (lines : List Text) :
    ((r.openBlock tag).addLines lines).drafts = r.drafts ++ [⟨tag, lines⟩] := rfl

end Reading

theorem readLines_append (v : Vocabulary) (r : Reading) (s t : List Text) :
    readLines v r (s ++ t) = readLines v r s >>= fun r => readLines v r t := by
  induction s generalizing r with
  | nil => rw [List.nil_append, readLines, pure_bind]
  | cons line s ih =>
    rw [List.cons_append, readLines, readLines, bind_assoc]
    exact congrArg _ (funext fun r => ih r)

theorem readLines_singleton (v : Vocabulary) (r : Reading) (line : Text) :
    readLines v r [line] = readLine v r line := by
  rw [readLines]
  exact bind_pure _

/-! ## Tags -/

theorem tag?_eq_none (h : startsTag text = false) : tag? text = none := by
  unfold tag?
  split
  · rename_i c rest
    rw [startsTag] at h
    rw [if_neg (by simp [h])]
  · rfl

/-- A tag ends where its word ends. -/
theorem tag?_append (hc : c.isAlpha = true) (ht : t.all isWord = true)
    (hrest : ∀ d ∈ rest.head?, isWord d = false) :
    tag? ('@' :: c :: t ++ rest) = some (c :: t, rest.dropWhile isBlank) := by
  rw [List.cons_append, List.cons_append, tag?, if_pos hc, takeWhile_run ht hrest,
    dropWhile_run ht hrest]

theorem eq_cons_of_tag? {found : Text × Text} (h : tag? text = some found) :
    ∃ t, text = '@' :: t := by
  unfold tag? at h
  split at h
  · rename_i c t
    exact ⟨c :: t, rfl⟩
  · cases h

theorem readTags_of_eq_none (h : tag? text = none) : readTags v r text = pure (r, text) := by
  rw [readTags]
  split
  · rfl
  · rename_i found hfound
    rw [h] at hfound
    cases hfound

theorem readTags_of_eq_some {found : Text × Text} (h : tag? text = some found) :
    readTags v r text =
      match v.modifier? (upper found.1) with
      | some spelling => readTags v (r.addModifier spelling) found.2
      | none =>
        if v.isBlock (upper found.1) then pure (r.openBlock found.1, found.2)
        else Noted.note (.unknownTag found.1) >>= fun _ => pure (r, text) := by
  rw [readTags]
  split
  · rename_i hnone
    rw [h] at hnone
    cases hnone
  · rename_i found' hfound
    rw [h] at hfound
    obtain rfl := Option.some.inj hfound
    rfl

/-- The tag of a block opens it, and reading of tags ends. -/
theorem readTags_block (h : tag? text = some (tag, rest)) (hm : v.modifier? (upper tag) = none)
    (hb : v.isBlock (upper tag) = true) :
    readTags v r text = pure (r.openBlock tag, rest) := by
  rw [readTags_of_eq_some h, hm]
  exact if_pos hb

/-! ## Lines -/

theorem readLine_prose (h : r.fenced = false) (line : ProseLine) :
    readLine v r line.text = pure (r.addLine line.text) := by
  have hkept : (line.text.isEmpty && !allBlank line.text) = false := by
    cases line.text with
    | nil => rfl
    | cons c t => rfl
  rw [readLine, line.isFenceLine_eq, if_neg Bool.false_ne_true, h, if_neg Bool.false_ne_true,
    line.trimmed, readTags_of_eq_none (tag?_eq_none line.not_tag), pure_bind]
  dsimp only
  rw [hkept, if_neg Bool.false_ne_true]

/-- A line with a block tag opens a draft with the rest of the line, if there is any. -/
theorem readLine_block (h : r.fenced = false) (htrim : trim text = text)
    (htag : tag? text = some (tag, rest)) (hm : v.modifier? (upper tag) = none)
    (hb : v.isBlock (upper tag) = true) :
    readLine v r text =
      pure ((r.openBlock tag).addLines (if rest.isEmpty then [] else [rest])) := by
  obtain ⟨t, rfl⟩ := eq_cons_of_tag? htag
  have hfence : isFenceLine ('@' :: t) = false := by
    rw [isFenceLine, htrim]
    rfl
  have hblank : allBlank ('@' :: t) = false := rfl
  rw [readLine, hfence, if_neg Bool.false_ne_true, h, if_neg Bool.false_ne_true, htrim,
    readTags_block htag hm hb, pure_bind]
  dsimp only
  rw [hblank, Bool.not_false, Bool.and_true]
  split
  · rw [Reading.addLines_nil]
  · rw [Reading.addLine_eq]

theorem readLine_fence (h : isFenceLine text = true) :
    readLine v r text = pure ({ r with fenced := !r.fenced }.addLine text) := by
  rw [readLine, if_pos h]

theorem readLines_code (h : r.fenced = true) (code : List CodeLine) :
    readLines v r (code.map CodeLine.text) = pure (r.addLines (code.map CodeLine.text)) := by
  induction code generalizing r with
  | nil =>
    rw [List.map_nil, r.addLines_nil]
    rfl
  | cons line code ih =>
    rw [List.map_cons, readLines, readLine, line.isFenceLine_eq, if_neg Bool.false_ne_true,
      if_pos h, pure_bind, ih (r := r.addLine line.text) h, Reading.addLine_eq,
      Reading.addLines_addLines, List.singleton_append]

theorem readLines_passage (h : r.fenced = false) (p : Passage) :
    readLines v r p.lines = pure (r.addLines p.lines) := by
  rcases p with line | ⟨language, named, lines⟩
  · rw [Passage.lines, readLines_singleton, readLine_prose h]
    rfl
  · rw [Passage.lines, readLines, readLine_fence (isFenceLine_fence named), pure_bind,
      readLines_append, readLines_code (by simp [Reading.addLine, h]), pure_bind,
      readLines_singleton, readLine_fence (by rfl)]
    simp only [Reading.addLine, Reading.addLines, h, List.append_assoc, Bool.not_false,
      Bool.not_true]
    rfl

/-- Whole passages are added to the open draft as they are. -/
theorem readLines_linesOf (h : r.fenced = false) (passages : List Passage) :
    readLines v r (linesOf passages) = pure (r.addLines (linesOf passages)) := by
  induction passages generalizing r with
  | nil =>
    rw [linesOf, List.flatMap_nil, r.addLines_nil]
    rfl
  | cons p passages ih =>
    rw [linesOf, List.flatMap_cons, readLines_append, readLines_passage h, pure_bind, ← linesOf,
      ih (r := r.addLines p.lines) h, Reading.addLines_addLines]

end ApiReference.Comment
