import ApiReference.Config.Default
import ApiReference.Json.Merge
import ApiReference.Proofs.Diagnostics.Outcome
import Mathlib.Data.Char
import Mathlib.Data.List.Lex
import Mathlib.Data.List.Sort

/-!
# Lists of tags that grow

The tags that a configuration adds are joined with the standard ones.  Texts can
always be compared, so the join gives a list, and this list has the tags of both in
order (`union_texts`), from whichever end several lists are joined
(`union_texts_assoc`).  All other settings of the standard configuration stay
(`merge_onlyTags`).
-/

namespace ApiReference

variable {blocks modifiers blocks' modifiers' : List Text}

namespace Json

namespace Atom

theorem mapM_of?_texts (ts : List Text) : (ts.map Json.text).mapM of? = some (ts.map .text) := by
  induction ts with
  | nil => rfl
  | cons t ts ih => simp [of?, ih]

/-- Each text is kept once. -/
theorem distinct_texts (ts : List Text) :
    ∃ us : List Text, distinct (ts.map .text) = us.map .text ∧ us.Nodup ∧
      ∀ t, t ∈ us ↔ t ∈ ts := by
  induction ts with
  | nil => exact ⟨[], rfl, List.nodup_nil, fun _ => Iff.rfl⟩
  | cons t ts ih =>
    obtain ⟨us, hdistinct, honce, hmem⟩ := ih
    refine ⟨t :: us.filter fun u => !(t == u), ?_, ?_, fun u => ?_⟩
    · rw [List.map_cons, distinct, hdistinct, List.filter_map]
      rfl
    · exact List.nodup_cons.mpr ⟨by simp, honce.filter _⟩
    · by_cases hu : u = t
      · simp [hu]
      · simp [hu, Ne.symm hu, hmem]

/-- A new text is put in its place. -/
theorem insert?_texts {t : Text} {ts : List Text} (hts : ts.Pairwise (· < ·)) (ht : t ∉ ts) :
    ∃ us : List Text, insert? (.text t) (ts.map .text) = some (us.map .text) ∧
      us.Pairwise (· < ·) ∧ ∀ u, u ∈ us ↔ u = t ∨ u ∈ ts := by
  induction ts with
  | nil => exact ⟨[t], rfl, List.pairwise_singleton _ _, fun u => by simp⟩
  | cons s ts ih =>
    obtain ⟨hs, hsorted⟩ := List.pairwise_cons.mp hts
    rw [List.mem_cons, not_or] at ht
    obtain ⟨us, hinsert, hus, hmem⟩ := ih hsorted ht.2
    rw [List.map_cons, insert?, lt?]
    by_cases hlt : Text.lt s t = true
    · refine ⟨s :: us, by simp [hlt, hinsert], List.pairwise_cons.mpr ⟨fun u hu => ?_, hus⟩,
        fun u => ?_⟩
      · rcases (hmem u).mp hu with rfl | hu
        · exact Text.lt_iff.mp hlt
        · exact hs u hu
      · rw [List.mem_cons, hmem, List.mem_cons]
        exact or_left_comm
    · have hts' : t < s := lt_of_le_of_ne (not_lt.mp fun h => hlt (Text.lt_iff.mpr h)) ht.1
      refine ⟨t :: s :: ts, by simp [hlt], List.pairwise_cons.mpr ⟨fun u hu => ?_, hts⟩,
        fun u => by rw [List.mem_cons]⟩
      rcases List.mem_cons.mp hu with rfl | hu
      · exact hts'
      · exact hts'.trans (hs u hu)

/-- Texts can be put in order. -/
theorem sort?_texts {ts : List Text} (h : ts.Nodup) :
    ∃ us : List Text, sort? (ts.map .text) = some (us.map .text) ∧ us.Pairwise (· < ·) ∧
      ∀ t, t ∈ us ↔ t ∈ ts := by
  induction ts with
  | nil => exact ⟨[], rfl, List.Pairwise.nil, fun _ => Iff.rfl⟩
  | cons t ts ih =>
    obtain ⟨hnew, hrest⟩ := List.nodup_cons.mp h
    obtain ⟨us, hsort, hus, hmem⟩ := ih hrest
    obtain ⟨ws, hinsert, hws, hmem'⟩ := insert?_texts hus fun ht => hnew ((hmem t).mp ht)
    refine ⟨ws, by simp [sort?, hsort, hinsert], hws, fun u => ?_⟩
    rw [hmem', hmem, List.mem_cons]

end Atom

/-- The join of two lists of texts has the texts of both, each once and in order. -/
theorem union_texts (ts us : List Text) :
    ∃ joined : List Text, union (ts.map .text) (us.map .text) = .ok (Config.texts joined) ∧
      joined.Pairwise (· < ·) ∧ ∀ t, t ∈ joined ↔ t ∈ ts ∨ t ∈ us := by
  obtain ⟨once, hdistinct, hnodup, honce⟩ := Atom.distinct_texts (ts ++ us)
  obtain ⟨sorted, hsort, hlt, hsorted⟩ := Atom.sort?_texts hnodup
  refine ⟨sorted, ?_, hlt, fun t => ?_⟩
  · rw [union, ← List.map_append, Atom.mapM_of?_texts]
    dsimp only
    rw [hdistinct, hsort]
    dsimp only
    rw [List.map_map]
    rfl
  · rw [hsorted, honce, List.mem_append]

/-- Joining three lists of texts comes to the same from either end: the join is in order, and so its
texts alone decide what it is. -/
theorem union_texts_assoc (ts us ws : List Text) :
    ∃ left right joined : List Text,
      union (ts.map .text) (us.map .text) = .ok (Config.texts left) ∧
      union (us.map .text) (ws.map .text) = .ok (Config.texts right) ∧
      union (left.map .text) (ws.map .text) = .ok (Config.texts joined) ∧
      union (ts.map .text) (right.map .text) = .ok (Config.texts joined) := by
  obtain ⟨left, hleft, -, hmemLeft⟩ := union_texts ts us
  obtain ⟨right, hright, -, hmemRight⟩ := union_texts us ws
  obtain ⟨joined, hjoined, hlt, hmem⟩ := union_texts left ws
  obtain ⟨joined', hjoined', hlt', hmem'⟩ := union_texts ts right
  have heq : joined = joined' := hlt.eq_of_mem_iff hlt' fun t => by
    rw [hmem, hmemLeft, hmem', hmemRight, or_assoc]
  exact ⟨left, right, joined, hleft, hright, hjoined, heq ▸ hjoined'⟩

/-- A list of tags is joined with the one that is there. -/
theorem mergeValue_tags {key : Text} (hkey : key ∈ additiveKeys) (old items : List Json) :
    mergeValue key (some (.list old)) (.list items) = union old items := by
  rw [mergeValue]
  exact if_pos (List.contains_iff_mem.mpr hkey)

/-- An object is merged with the one that is there. -/
theorem mergeValue_object {old new merged : List (Text × Json)} (key : Text)
    (hmerged : mergeFields old new = .ok merged) :
    mergeValue key (some (.object old)) (.object new) = .ok (.object merged) := by
  rw [mergeValue, hmerged]
  rfl

theorem mergeFields_tags {key : Text} {fields : List (Text × Json)} {old items : List Json}
    {joined : Json} (hkey : key ∈ additiveKeys) (hold : fields.lookup key = some (.list old))
    (hjoined : union old items = .ok joined) (rest : List (Text × Json)) :
    mergeFields fields ((key, .list items) :: rest) =
      mergeFields (insert key joined fields) rest := by
  rw [mergeFields, hold, mergeValue_tags hkey, hjoined, Except.ok_bind]

theorem mergeFields_object {key : Text} {fields old new merged : List (Text × Json)}
    (hold : fields.lookup key = some (.object old)) (hmerged : mergeFields old new = .ok merged)
    (rest : List (Text × Json)) :
    mergeFields fields ((key, .object new) :: rest) =
      mergeFields (insert key (.object merged) fields) rest := by
  rw [mergeFields, hold, mergeValue_object key hmerged, Except.ok_bind]

end Json

namespace Config

open Json

/-- The settings for comments: the tags that open blocks, and the modifiers. -/
def tagSettings (blocks modifiers : List Text) : List (Text × Json) :=
  [("block_tags", texts blocks), ("modifier_tags", texts modifiers)]

/-- The standard settings but for the tags. -/
def withTags (blocks modifiers : List Text) : Json := .object [
  ("input", .object [("pattern", .text "*.api.json")]),
  ("output", .object [("extension", .text ".md"), ("clear", .bool true)]),
  ("signature", .object [("language", .text "typescript")]),
  ("logging", .object [("level", .text "WARNING")]),
  ("comment", .object (tagSettings blocks modifiers))]

/-- A configuration that only has tags. -/
def onlyTags (blocks modifiers : List Text) : Json :=
  .object [("comment", .object (tagSettings blocks modifiers))]

theorem mergeFields_tagSettings {allBlocks allModifiers : List Text}
    (hblocks : union (blocks.map .text) (blocks'.map .text) = .ok (texts allBlocks))
    (hmodifiers : union (modifiers.map .text) (modifiers'.map .text) =
      .ok (texts allModifiers)) :
    mergeFields (tagSettings blocks modifiers) (tagSettings blocks' modifiers') =
      .ok (tagSettings allBlocks allModifiers) := by
  have hold : (insert "block_tags" (texts allBlocks) (tagSettings blocks modifiers)).lookup
      ("modifier_tags" : Text) = some (texts modifiers) := rfl
  calc mergeFields (tagSettings blocks modifiers) (tagSettings blocks' modifiers')
      = mergeFields (insert "block_tags" (texts allBlocks) (tagSettings blocks modifiers))
          [("modifier_tags", texts modifiers')] := mergeFields_tags (by decide) rfl hblocks _
    _ = mergeFields (insert "modifier_tags" (texts allModifiers)
          (insert "block_tags" (texts allBlocks) (tagSettings blocks modifiers))) [] :=
        mergeFields_tags (by decide) hold hmodifiers _
    _ = .ok (tagSettings allBlocks allModifiers) := by
        rw [mergeFields]
        rfl

/-- Added tags are joined with those that are there, and nothing else changes. -/
theorem merge_onlyTags (blocks modifiers blocks' modifiers' : List Text) :
    ∃ allBlocks allModifiers,
      merge (withTags blocks modifiers) (onlyTags blocks' modifiers') =
        .ok (withTags allBlocks allModifiers) ∧
      (∀ t, t ∈ allBlocks ↔ t ∈ blocks ∨ t ∈ blocks') ∧
      (∀ t, t ∈ allModifiers ↔ t ∈ modifiers ∨ t ∈ modifiers') := by
  obtain ⟨allBlocks, hblocks, -, hmemBlocks⟩ := union_texts blocks blocks'
  obtain ⟨allModifiers, hmodifiers, -, hmemModifiers⟩ := union_texts modifiers modifiers'
  refine ⟨allBlocks, allModifiers, ?_, hmemBlocks, hmemModifiers⟩
  have hsettings := mergeFields_tagSettings hblocks hmodifiers
  rw [withTags, onlyTags, merge, mergeFields_object rfl hsettings, mergeFields]
  rfl

end Config

end ApiReference
