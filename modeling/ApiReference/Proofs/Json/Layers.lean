import ApiReference.Proofs.Config.Tags
import ApiReference.Proofs.Json.Fields

/-!
# Layers of configurations

Configurations are laid over each other.  What comes of two of them is decided key by
key: the keys of the upper one that are new go behind those of the lower one, and what
stands under a key is merged from what stands there in either (`Merged`).  So layers can
be merged from either end if the values under each key can (`associates_of_under`), and
these can if their shapes match: they are all objects, or all lists of tags, or the
uppermost one replaces the others (`associates_some`).
-/

namespace ApiReference.Json

variable {key : Text} {u v w : Json} {x y z : Option Json}
variable {a b c base update result fs gs hs : List (Text × Json)}

/-! ## Merging key by key -/

/-- What comes to stand under a key where there may be a value in either of two objects. -/
def mergeUnder (key : Text) (old? : Option Json) : Option Json → Except Fault (Option Json)
  | none => .ok old?
  | some new => some <$> mergeValue key old? new

theorem mergeUnder_eq (h : mergeValue key x v = .ok w) :
    mergeUnder key x (some v) = .ok (some w) := by
  rw [mergeUnder, h]
  rfl

/-- Under a new key stands the value of the upper object. -/
theorem mergeUnder_none_left (key : Text) (y : Option Json) : mergeUnder key none y = .ok y := by
  cases y with
  | none => rfl
  | some new => exact mergeUnder_eq (by cases new <;> simp [mergeValue])

theorem mergeUnder_object (key : Text) (h : mergeFields fs gs = .ok hs) :
    mergeUnder key (some (.object fs)) (some (.object gs)) = .ok (some (.object hs)) :=
  mergeUnder_eq (mergeValue_object key h)

theorem mergeUnder_tags {ts us : List Text} {joined : Json} (hkey : key ∈ additiveKeys)
    (h : union (ts.map .text) (us.map .text) = .ok joined) :
    mergeUnder key (some (Config.texts ts)) (some (Config.texts us)) = .ok (some joined) :=
  mergeUnder_eq ((mergeValue_tags hkey _ _).trans h)

theorem exists_mergeValue (h : mergeUnder key x (some v) = .ok y) :
    ∃ merged, mergeValue key x v = .ok merged ∧ y = some merged := by
  rw [mergeUnder] at h
  cases hvalue : mergeValue key x v with
  | error fault =>
    rw [hvalue] at h
    cases h
  | ok merged =>
    rw [hvalue] at h
    cases h
    exact ⟨merged, rfl, rfl⟩

/-- The fields that come of putting some over others: the new keys stand behind the old ones, and
under each key stands what is merged from both sides. -/
structure Merged (base update result : List (Text × Json)) : Prop where
  keys : result.map Prod.fst = withNew (base.map Prod.fst) (update.map Prod.fst)
  under : ∀ key, mergeUnder key (base.lookup key) (update.lookup key) = .ok (result.lookup key)

/-- One more field at the front is put over the others first. -/
theorem Merged.cons (hkey : key ∉ update.map Prod.fst)
    (hvalue : mergeValue key (base.lookup key) v = .ok w)
    (h : Merged (insert key w base) update result) : Merged base ((key, v) :: update) result where
  keys := by rw [h.keys, keys_insert, List.map_cons, withNew_cons hkey]
  under k := by
    have hunder := h.under k
    rw [lookup_insert] at hunder
    by_cases hk : k = key
    · subst hk
      rw [if_pos rfl, lookup_eq_none_iff_not_mem.mpr hkey] at hunder
      rw [List.lookup_cons_self, mergeUnder, hvalue]
      exact hunder
    · rw [if_neg hk] at hunder
      rwa [lookup_cons_of_ne hk]

/-- Fields are merged if the values under each of their keys are. -/
theorem exists_merged (hupdate : (update.map Prod.fst).Nodup)
    (h : ∀ key, ∃ v?, mergeUnder key (base.lookup key) (update.lookup key) = .ok v?) :
    ∃ result, mergeFields base update = .ok result ∧ Merged base update result := by
  induction update generalizing base with
  | nil =>
    refine ⟨base, by rw [mergeFields], ?_, fun key => rfl⟩
    rw [withNew, List.map_nil, List.filter_nil, List.append_nil]
  | cons field update ih =>
    obtain ⟨key, value⟩ := field
    obtain ⟨hnew, hrest⟩ := List.nodup_cons.mp hupdate
    have hnone : update.lookup key = none := lookup_eq_none_iff_not_mem.mpr hnew
    obtain ⟨v?, hv⟩ := h key
    rw [List.lookup_cons_self] at hv
    obtain ⟨merged, hmerged, -⟩ := exists_mergeValue hv
    have hothers : ∀ k, ∃ v?, mergeUnder k ((insert key merged base).lookup k)
        (update.lookup k) = .ok v? := by
      intro k
      by_cases hk : k = key
      · exact ⟨_, by rw [hk, hnone, mergeUnder]⟩
      · have hone := h k
        rw [lookup_cons_of_ne hk] at hone
        rwa [lookup_insert, if_neg hk]
    obtain ⟨result, hresult, hall⟩ := ih hrest hothers
    refine ⟨result, ?_, hall.cons hnew hmerged⟩
    rw [mergeFields, hmerged, Except.ok_bind, hresult]

/-- The keys and what stands under them decide what comes of two layers. -/
theorem Merged.mergeFields_eq (hbase : (base.map Prod.fst).Nodup)
    (hupdate : (update.map Prod.fst).Nodup) (h : Merged base update result) :
    mergeFields base update = .ok result := by
  obtain ⟨result', hresult', h'⟩ := exists_merged hupdate fun key => ⟨_, h.under key⟩
  have heq : result' = result := by
    refine eq_of_lookup (h'.keys.trans h.keys.symm) ?_ fun key => ?_
    · rw [h'.keys]
      exact nodup_withNew hbase hupdate
    · exact Except.ok.inj ((h'.under key).symm.trans (h.under key))
  rw [hresult', heq]

/-! ## Three layers -/

/-- Three values are merged to the same from either end. -/
def Associates {α : Type} (merge : α → α → Except Fault α) (x y z : α) : Prop :=
  ∃ xy yz xyz, merge x y = .ok xy ∧ merge y z = .ok yz ∧ merge xy z = .ok xyz ∧ merge x yz = .ok xyz

/-- Layers can be merged from either end if what stands under each key can. -/
theorem associates_of_under (ha : (a.map Prod.fst).Nodup) (hb : (b.map Prod.fst).Nodup)
    (hc : (c.map Prod.fst).Nodup)
    (h : ∀ key, Associates (mergeUnder key) (a.lookup key) (b.lookup key) (c.lookup key)) :
    Associates mergeFields a b c := by
  obtain ⟨ab, hmergeLeft, hleft⟩ := exists_merged hb fun key =>
    let ⟨xy, _, _, hxy, _⟩ := h key
    ⟨xy, hxy⟩
  obtain ⟨bc, hmergeRight, hright⟩ := exists_merged hc fun key =>
    let ⟨_, yz, _, _, hyz, _⟩ := h key
    ⟨yz, hyz⟩
  have hends : ∀ key, ∃ xyz, mergeUnder key (ab.lookup key) (c.lookup key) = .ok xyz ∧
      mergeUnder key (a.lookup key) (bc.lookup key) = .ok xyz := by
    intro key
    obtain ⟨xy, yz, xyz, hxy, hyz, hl, hr⟩ := h key
    rw [Except.ok.inj ((hleft.under key).symm.trans hxy),
      Except.ok.inj ((hright.under key).symm.trans hyz)]
    exact ⟨xyz, hl, hr⟩
  obtain ⟨abc, hmerge, hall⟩ := exists_merged hc fun key =>
    let ⟨xyz, hl, _⟩ := hends key
    ⟨xyz, hl⟩
  have hall' : Merged a bc abc := by
    refine ⟨?_, fun key => ?_⟩
    · rw [hall.keys, hleft.keys, hright.keys, withNew_assoc]
    · obtain ⟨xyz, hl, hr⟩ := hends key
      rw [hr, Except.ok.inj ((hall.under key).symm.trans hl)]
  have hbc : (bc.map Prod.fst).Nodup := hright.keys ▸ nodup_withNew hb hc
  exact ⟨ab, bc, abc, hmergeLeft, hmergeRight, hmerge, hall'.mergeFields_eq ha hbc⟩

/-! ## Matching shapes -/

def isList : Json → Bool
  | list _ => true
  | _ => false

/-- A list of nothing but texts. -/
def IsTexts (value : Json) : Prop := ∃ ts, value = Config.texts ts

/-- Two values that may stand under a key in two layers: both are objects or neither is, and under
the key of a list of tags both are lists of texts or neither is a list. -/
structure Compatible (key : Text) (v w : Json) : Prop where
  isObject_eq : v.isObject = w.isObject
  tags : key ∈ additiveKeys → IsTexts v ∧ IsTexts w ∨ v.isList = false ∧ w.isList = false

/-- Wherever a key path leads to a value in both of two layers, these values may stand there. -/
def Matches (a b : Json) : Prop := ∀ path key v w,
  a.at? (path ++ [key]) = some v → b.at? (path ++ [key]) = some w → Compatible key v w

namespace Matches

variable (h : Matches (.object a) (.object b)) (hv : a.lookup key = some v)
variable (hw : b.lookup key = some w)
include h hv hw

theorem compatible : Compatible key v w :=
  h [] key v w (at?_object hv []) (at?_object hw [])

theorem inside : Matches v w := fun path key' v' w' hv' hw' =>
  h (key :: path) key' v' w' ((at?_object hv _).trans hv') ((at?_object hw _).trans hw')

end Matches

/-- Layers match if what stands under the keys that both have goes together and matches. -/
theorem Matches.of_fields (h : ∀ field ∈ a, ∀ field' ∈ b, field.1 = field'.1 →
    Compatible field.1 field.2 field'.2 ∧ Matches field.2 field'.2) :
    Matches (.object a) (.object b) := by
  rintro (_ | ⟨key', path⟩) key v w hv hw
  all_goals
    obtain ⟨v', hv', hv⟩ := Option.bind_eq_some_iff.mp hv
    obtain ⟨w', hw', hw⟩ := Option.bind_eq_some_iff.mp hw
    obtain ⟨hcompatible, hinside⟩ := h _ (mem_of_lookup hv') _ (mem_of_lookup hw') rfl
  · cases hv
    cases hw
    exact hcompatible
  · exact hinside path key v w hv hw

/-- Layers match that have no key in common. -/
theorem Matches.of_keys_apart (h : ∀ key ∈ a.map Prod.fst, key ∉ b.map Prod.fst) :
    Matches (.object a) (.object b) :=
  .of_fields fun field hfield _ hfield' heq =>
    absurd (heq ▸ List.mem_map_of_mem hfield')
      (h field.1 (List.mem_map_of_mem (f := Prod.fst) hfield))

theorem Matches.of_not_object (h : v.isObject = false) (w : Json) : Matches v w := by
  rintro (_ | ⟨key', path⟩) key v' w' hv
  · cases (at?_of_not_object h key []).symm.trans hv
  · cases (at?_of_not_object h key' (path ++ [key])).symm.trans hv

/-- The upper value takes the place of the lower one. -/
structure Replaces (key : Text) (v w : Json) : Prop where
  old_not_object : v.isObject = false
  new_not_object : w.isObject = false
  not_lists : key ∈ additiveKeys → v.isList = false ∧ w.isList = false

theorem Replaces.mergeValue_eq (h : Replaces key v w) : mergeValue key (some v) w = .ok w := by
  cases w with
  | object fields => cases h.new_not_object
  | list items =>
    cases v with
    | list old =>
      have hkey : key ∉ additiveKeys := fun hkey => by cases (h.not_lists hkey).1
      rw [mergeValue]
      exact if_neg (by simpa using hkey)
    | _ => simp [mergeValue]
  | _ => simp [mergeValue]

namespace Compatible

/-- What happens to two values that may stand under one key: objects are merged, lists of tags are
joined, and all else is replaced. -/
theorem cases (h : Compatible key v w) :
    (∃ fs gs, v = .object fs ∧ w = .object gs) ∨
      (key ∈ additiveKeys ∧ IsTexts v ∧ IsTexts w) ∨ Replaces key v w := by
  cases hv : v.isObject with
  | true =>
    obtain ⟨fs, rfl⟩ := exists_eq_object hv
    obtain ⟨gs, rfl⟩ := exists_eq_object (h.isObject_eq.symm.trans hv)
    exact .inl ⟨fs, gs, rfl, rfl⟩
  | false =>
    by_cases htags : key ∈ additiveKeys ∧ IsTexts v ∧ IsTexts w
    · exact .inr (.inl htags)
    · exact .inr (.inr ⟨hv, h.isObject_eq.symm.trans hv, fun hkey =>
        (h.tags hkey).resolve_left fun htexts => htags ⟨hkey, htexts⟩⟩)

/-- What goes with a list of texts under the key of a list of tags is one as well. -/
theorem isTexts (h : Compatible key v w) (hkey : key ∈ additiveKeys) (hv : IsTexts v) :
    IsTexts w := by
  obtain ⟨ts, rfl⟩ := hv
  exact ((h.tags hkey).resolve_right fun hlist => by cases hlist.1).2

/-- What replaces another value is replaced by what goes with it. -/
theorem replaces (h : Compatible key v w) (hv : v.isObject = false)
    (hlist : key ∈ additiveKeys → v.isList = false) : Replaces key v w where
  old_not_object := hv
  new_not_object := h.isObject_eq.symm.trans hv
  not_lists hkey := (h.tags hkey).resolve_left fun htexts => by
    obtain ⟨ts, rfl⟩ := htexts.1
    cases hlist hkey

end Compatible

/-- Under a key where the values of two layers go together they are merged. -/
theorem exists_mergeUnder (h : ∀ v ∈ x, ∀ w ∈ y, Compatible key v w)
    (hobjects : ∀ fs gs, x = some (.object fs) → y = some (.object gs) →
      ∃ hs, mergeFields fs gs = .ok hs) : ∃ z, mergeUnder key x y = .ok z := by
  cases x with
  | none => exact ⟨y, mergeUnder_none_left key y⟩
  | some v =>
    cases y with
    | none => exact ⟨some v, rfl⟩
    | some w =>
      obtain ⟨fs, gs, rfl, rfl⟩ | ⟨hkey, ⟨ts, rfl⟩, us, rfl⟩ | hnew := (h v rfl w rfl).cases
      · obtain ⟨hs, hmerged⟩ := hobjects fs gs rfl rfl
        exact ⟨_, mergeUnder_object key hmerged⟩
      · obtain ⟨joined, hjoined, -⟩ := union_texts ts us
        exact ⟨_, mergeUnder_tags hkey hjoined⟩
      · exact ⟨_, mergeUnder_eq hnew.mergeValue_eq⟩

/-- The values of three layers under one key are merged to the same from either end. -/
theorem associates_some (hvw : Compatible key v w) (hwu : Compatible key w u)
    (hvu : Compatible key v u)
    (hobjects : ∀ fs gs hs, v = .object fs → w = .object gs → u = .object hs →
      Associates mergeFields fs gs hs) :
    Associates (mergeUnder key) (some v) (some w) (some u) := by
  obtain ⟨fs, gs, rfl, rfl⟩ | ⟨hkey, hv, hw⟩ | hnew := hvw.cases
  · obtain ⟨hs, rfl⟩ := exists_eq_object hwu.isObject_eq.symm
    obtain ⟨left, right, merged, hleft, hright, hl, hr⟩ := hobjects fs gs hs rfl rfl rfl
    exact ⟨_, _, _, mergeUnder_object key hleft, mergeUnder_object key hright,
      mergeUnder_object key hl, mergeUnder_object key hr⟩
  · obtain ⟨ws, rfl⟩ := hwu.isTexts hkey hw
    obtain ⟨ts, rfl⟩ := hv
    obtain ⟨us, rfl⟩ := hw
    obtain ⟨left, right, joined, hleft, hright, hl, hr⟩ := union_texts_assoc ts us ws
    exact ⟨_, _, _, mergeUnder_tags hkey hleft, mergeUnder_tags hkey hright,
      mergeUnder_tags hkey hl, mergeUnder_tags hkey hr⟩
  · have hwu' := hwu.replaces hnew.new_not_object fun hkey => (hnew.not_lists hkey).2
    have hvu' := hvu.replaces hnew.old_not_object fun hkey => (hnew.not_lists hkey).1
    exact ⟨_, _, _, mergeUnder_eq hnew.mergeValue_eq, mergeUnder_eq hwu'.mergeValue_eq,
      mergeUnder_eq hwu'.mergeValue_eq, mergeUnder_eq hvu'.mergeValue_eq⟩

/-- Where one of three layers has no value the other two are merged. -/
theorem associates_of_absent {xy yz xz : Option Json} (h : x = none ∨ y = none ∨ z = none)
    (hxy : mergeUnder key x y = .ok xy) (hyz : mergeUnder key y z = .ok yz)
    (hxz : mergeUnder key x z = .ok xz) : Associates (mergeUnder key) x y z := by
  obtain rfl | rfl | rfl := h
  · exact ⟨y, yz, yz, mergeUnder_none_left key y, hyz, hyz, mergeUnder_none_left key yz⟩
  · exact ⟨x, z, xz, rfl, mergeUnder_none_left key z, hxz, hxz⟩
  · exact ⟨xy, y, xy, hxy, rfl, rfl, hxy⟩

/-! ## Merging from either end -/

theorem merge_object (h : mergeFields a b = .ok c) :
    merge (.object a) (.object b) = .ok (.object c) := by
  rw [merge, h]
  rfl

/-- Layers of matching shape are merged. -/
theorem exists_merged_of_matches (update base : List (Text × Json)) (hbase : Keyed (.object base))
    (hupdate : Keyed (.object update)) (h : Matches (.object base) (.object update)) :
    ∃ result, mergeFields base update = .ok result ∧ Merged base update result := by
  induction update using fields_induction generalizing base with
  | step update ih =>
    refine exists_merged hupdate.nodup fun key => ?_
    refine exists_mergeUnder (fun v hv w hw => h.compatible hv hw) fun fs gs hfs hgs => ?_
    obtain ⟨merged, hmerged, -⟩ :=
      ih key gs hgs fs (hbase.inside hfs) (hupdate.inside hgs) (h.inside hfs hgs)
    exact ⟨merged, hmerged⟩

/-- Three layers of which the shapes match in pairs are merged to the same from either end. -/
theorem associates_mergeFields (c a b : List (Text × Json)) (ha : Keyed (.object a))
    (hb : Keyed (.object b)) (hc : Keyed (.object c)) (hab : Matches (.object a) (.object b))
    (hbc : Matches (.object b) (.object c)) (hac : Matches (.object a) (.object c)) :
    Associates mergeFields a b c := by
  induction c using fields_induction generalizing a b with
  | step c ih =>
    obtain ⟨_, -, hmergedLeft⟩ := exists_merged_of_matches b a ha hb hab
    obtain ⟨_, -, hmergedRight⟩ := exists_merged_of_matches c b hb hc hbc
    obtain ⟨_, -, hmergedOuter⟩ := exists_merged_of_matches c a ha hc hac
    refine associates_of_under ha.nodup hb.nodup hc.nodup fun key => ?_
    by_cases habsent : a.lookup key = none ∨ b.lookup key = none ∨ c.lookup key = none
    · exact associates_of_absent habsent (hmergedLeft.under key) (hmergedRight.under key)
        (hmergedOuter.under key)
    · simp only [not_or, ← ne_eq, Option.ne_none_iff_exists'] at habsent
      obtain ⟨⟨v, hv⟩, ⟨w, hw⟩, u, hu⟩ := habsent
      rw [hv, hw, hu]
      refine associates_some (hab.compatible hv hw) (hbc.compatible hw hu) (hac.compatible hv hu) ?_
      rintro fs gs hs rfl rfl rfl
      exact ih key hs hu fs gs (ha.inside hv) (hb.inside hw) (hc.inside hu) (hab.inside hv hw)
        (hbc.inside hw hu) (hac.inside hv hu)

/-- Configurations are laid over each other from either end: if the shapes of three of them match in
pairs, then merging the first two and the third over both comes to the same, in all fields and their
order, as merging the last two and laying both over the first. -/
theorem merge_assoc (ha : Keyed (.object a)) (hb : Keyed (.object b)) (hc : Keyed (.object c))
    (hab : Matches (.object a) (.object b)) (hbc : Matches (.object b) (.object c))
    (hac : Matches (.object a) (.object c)) :
    ∃ ab bc abc, merge (.object a) (.object b) = .ok ab ∧ merge (.object b) (.object c) = .ok bc ∧
      merge ab (.object c) = .ok abc ∧ merge (.object a) bc = .ok abc := by
  obtain ⟨ab, bc, abc, hleft, hright, hl, hr⟩ := associates_mergeFields c a b ha hb hc hab hbc hac
  exact ⟨.object ab, .object bc, .object abc, merge_object hleft, merge_object hright,
    merge_object hl, merge_object hr⟩

/-- A layer with tags that are in no order. -/
def tagLayer : List (Text × Json) :=
  [("comment", .object (Config.tagSettings ["see", "example"] [])), ("title", .text "Dogs")]

/-- A layer that has no key of the others. -/
def outputLayer : List (Text × Json) := [("output", .object [("clear", .bool true)])]

/-- A layer with more tags and another title. -/
def titleLayer : List (Text × Json) :=
  [("title", .int 5), ("comment", .object (Config.tagSettings ["since", "example"] ["beta"]))]

theorem matches_tagSettings (blocks modifiers blocks' modifiers' : List Text) :
    Matches (.object (Config.tagSettings blocks modifiers))
      (.object (Config.tagSettings blocks' modifiers')) := by
  have htexts {blocks modifiers : List Text} :
      ∀ field ∈ Config.tagSettings blocks modifiers, IsTexts field.2 :=
    List.forall_mem_cons.mpr ⟨⟨blocks, rfl⟩, List.forall_mem_singleton.mpr ⟨modifiers, rfl⟩⟩
  refine .of_fields fun field hfield field' hfield' _ => ?_
  obtain ⟨ts, hts⟩ := htexts field hfield
  obtain ⟨us, hus⟩ := htexts field' hfield'
  rw [hts, hus]
  exact ⟨⟨rfl, fun _ => .inl ⟨⟨ts, rfl⟩, us, rfl⟩⟩, .of_not_object rfl _⟩

theorem merge_assoc_of_tags :
    Keyed (.object tagLayer) ∧ Keyed (.object outputLayer) ∧ Keyed (.object titleLayer) ∧
    Matches (.object tagLayer) (.object outputLayer) ∧
    Matches (.object outputLayer) (.object titleLayer) ∧
    Matches (.object tagLayer) (.object titleLayer) ∧
    ∃ ab bc abc, merge (.object tagLayer) (.object outputLayer) = .ok ab ∧
      merge (.object outputLayer) (.object titleLayer) = .ok bc ∧
      merge ab (.object titleLayer) = .ok abc ∧ merge (.object tagLayer) bc = .ok abc := by
  have ha : Keyed (.object tagLayer) := by decide
  have hb : Keyed (.object outputLayer) := by decide
  have hc : Keyed (.object titleLayer) := by decide
  have hab : Matches (.object tagLayer) (.object outputLayer) := .of_keys_apart (by decide)
  have hbc : Matches (.object outputLayer) (.object titleLayer) := .of_keys_apart (by decide)
  have hac : Matches (.object tagLayer) (.object titleLayer) := by
    refine .of_fields fun field hfield field' hfield' heq => ?_
    simp only [tagLayer, titleLayer, List.mem_cons, List.not_mem_nil, or_false] at hfield hfield'
    obtain rfl | rfl := hfield <;> obtain rfl | rfl := hfield'
    · exact absurd heq (by decide)
    · exact ⟨⟨rfl, fun _ => .inr ⟨rfl, rfl⟩⟩, matches_tagSettings _ _ _ _⟩
    · exact ⟨⟨rfl, fun _ => .inr ⟨rfl, rfl⟩⟩, .of_not_object rfl _⟩
    · exact absurd heq (by decide)
  exact ⟨ha, hb, hc, hab, hbc, hac, merge_assoc ha hb hc hab hbc hac⟩

end ApiReference.Json
