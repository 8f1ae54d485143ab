import ApiReference.Json.Basic
import ApiReference.Proofs.Lookup

/-!
# Fields of objects

The values inside an object are reached by key paths (`at?`).  An object comes from a
document with each of its keys once, and so do the objects inside it (`Keyed`, which
`isKeyed` decides).  A field that is inserted stays in the place of an older one with its
key, or else goes behind all others, so that the keys that many fields add are known at
once (`withNew`).
-/

namespace ApiReference.Json

variable {key : Text} {path : List Text} {value : Json} {fields : List (Text × Json)}
variable {ks new newer : List Text}

/-! ## Keys -/

/-- The keys, and behind them the new ones among others. -/
def withNew (ks new : List Text) : List Text := ks ++ new.filter (!ks.contains ·)

theorem mem_withNew : key ∈ withNew ks new ↔ key ∈ ks ∨ key ∈ new := by
  rw [withNew, List.mem_append, List.mem_filter]
  by_cases h : key ∈ ks
  · simp [h]
  · simp [h]

theorem nodup_withNew (hks : ks.Nodup) (hnew : new.Nodup) : (withNew ks new).Nodup := by
  refine List.nodup_append.mpr ⟨hks, hnew.filter _, fun a ha b hb heq => ?_⟩
  exact absurd (heq ▸ ha) (by simpa using (List.mem_filter.mp hb).2)

/-- New keys may be added one after the other. -/
theorem withNew_cons (hkey : key ∉ new) :
    withNew ks (key :: new) = withNew (ks ++ if key ∈ ks then [] else [key]) new := by
  by_cases h : key ∈ ks
  · rw [withNew, List.filter_cons_of_neg (by simpa using h), if_pos h, List.append_nil, withNew]
  · have hrest : new.filter (!ks.contains ·) = new.filter (!(ks ++ [key]).contains ·) := by
      refine List.filter_congr fun k hk => ?_
      have hne : k ≠ key := fun heq => hkey (heq ▸ hk)
      simp [hne]
    rw [withNew, List.filter_cons_of_pos (by simpa using h), if_neg h, withNew, hrest,
      List.append_assoc, List.singleton_append]

theorem withNew_assoc (ks new newer : List Text) :
    withNew (withNew ks new) newer = withNew ks (withNew new newer) := by
  have hnewer : newer.filter (!(withNew ks new).contains ·) =
      (newer.filter (!new.contains ·)).filter (!ks.contains ·) := by
    rw [List.filter_filter]
    refine List.filter_congr fun k _ => ?_
    rw [Bool.eq_iff_iff]
    simp [mem_withNew]
  calc withNew (withNew ks new) newer
      = ks ++ new.filter (!ks.contains ·) ++ newer.filter (!(withNew ks new).contains ·) := rfl
    _ = ks ++ (new.filter (!ks.contains ·) ++
          (newer.filter (!new.contains ·)).filter (!ks.contains ·)) := by
        rw [hnewer, List.append_assoc]
    _ = withNew ks (withNew new newer) := by
        rw [← List.filter_append]
        rfl

/-- A new key goes to the end, and a known one keeps its place. -/
theorem keys_insert (key : Text) (value : Json) (fields : List (Text × Json)) :
    (insert key value fields).map Prod.fst =
      fields.map Prod.fst ++ if key ∈ fields.map Prod.fst then [] else [key] := by
  induction fields with
  | nil => rfl
  | cons field fields ih =>
    rw [insert]
    by_cases hfield : field.1 = key
    · subst hfield
      rw [if_pos rfl, List.map_cons, List.map_cons, if_pos (List.mem_cons_self ..), List.append_nil]
    · have hmem : key ∈ field.1 :: fields.map Prod.fst ↔ key ∈ fields.map Prod.fst := by
        rw [List.mem_cons, or_iff_right (Ne.symm hfield)]
      rw [if_neg hfield, List.map_cons, List.map_cons, ih, List.cons_append]
      simp only [hmem]

theorem eq_or_mem_of_mem_insert {field : Text × Json} (h : field ∈ insert key value fields) :
    field = (key, value) ∨ field ∈ fields := by
  induction fields with
  | nil => exact .inl (List.mem_singleton.mp h)
  | cons first fields ih =>
    rw [insert] at h
    split at h
    · exact (List.mem_cons.mp h).imp_right (List.mem_cons_of_mem _)
    · obtain rfl | h := List.mem_cons.mp h
      · exact .inr (List.mem_cons_self ..)
      · exact (ih h).imp_right (List.mem_cons_of_mem _)

/-! ## Key paths -/

theorem exists_eq_object (h : value.isObject = true) : ∃ fields, value = .object fields := by
  cases value with
  | object fields => exact ⟨fields, rfl⟩
  | _ => cases h

/-- The value that the keys lead to, one after the other. -/
def at? : (path : List Text) → Json → Option Json
  | [], value => some value
  | key :: path, .object fields => (fields.lookup key).bind (at? path)
  | _ :: _, _ => none

theorem at?_object (h : fields.lookup key = some value) (path : List Text) :
    (object fields).at? (key :: path) = value.at? path := by
  rw [at?, h, Option.bind_some]

/-- Nothing is inside a value that is no object. -/
theorem at?_of_not_object (h : value.isObject = false) (key : Text) (path : List Text) :
    value.at? (key :: path) = none := by
  cases value with
  | object fields => cases h
  | _ => rfl

/-- Each key stands once, in the value itself if it is an object and in all objects that key paths
lead to. -/
def Keyed (value : Json) : Prop :=
  ∀ path fields, value.at? path = some (.object fields) → (fields.map Prod.fst).Nodup

namespace Keyed

theorem nodup (h : Keyed (.object fields)) : (fields.map Prod.fst).Nodup := h [] fields rfl

theorem inside (h : Keyed (.object fields)) (hvalue : fields.lookup key = some value) :
    Keyed value := fun path inner hinner =>
  h (key :: path) inner ((at?_object hvalue path).trans hinner)

theorem of_fields (hnodup : (fields.map Prod.fst).Nodup)
    (h : ∀ field ∈ fields, Keyed field.2) : Keyed (.object fields) := by
  intro path inner hinner
  cases path with
  | nil =>
    obtain rfl := object.inj (Option.some.inj hinner)
    exact hnodup
  | cons key path =>
    obtain ⟨value, hvalue, hinner⟩ := Option.bind_eq_some_iff.mp hinner
    exact h (key, value) ((lookup_eq_some_iff_mem hnodup).mp hvalue) path inner hinner

theorem of_not_object (h : value.isObject = false) : Keyed value := by
  intro path inner hinner
  cases path with
  | nil =>
    obtain rfl := Option.some.inj hinner
    cases h
  | cons key path =>
    rw [at?_of_not_object h] at hinner
    cases hinner

theorem of_mem (h : Keyed (.object fields)) {field : Text × Json} (hfield : field ∈ fields) :
    Keyed field.2 :=
  h.inside ((lookup_eq_some_iff_mem h.nodup).mpr hfield)

theorem object_iff :
    Keyed (.object fields) ↔ (fields.map Prod.fst).Nodup ∧ ∀ field ∈ fields, Keyed field.2 :=
  ⟨fun h => ⟨h.nodup, fun _ => h.of_mem⟩, fun h => of_fields h.1 h.2⟩

theorem insert (hvalue : Keyed value) (h : Keyed (.object fields)) :
    Keyed (.object (insert key value fields)) := by
  refine .of_fields ?_ fun field hfield => ?_
  · rw [keys_insert]
    split
    · rw [List.append_nil]
      exact h.nodup
    · rename_i hkey
      exact List.nodup_append.mpr ⟨h.nodup, List.nodup_singleton _, fun k hk k' hk' heq =>
        hkey (List.mem_singleton.mp hk' ▸ heq ▸ hk)⟩
  · obtain rfl | hfield := eq_or_mem_of_mem_insert hfield
    · exact hvalue
    · exact h.of_mem hfield

end Keyed

mutual

/-- Whether each key stands once in all objects. -/
def isKeyed : Json → Bool
  | .object fields => decide (fields.map Prod.fst).Nodup && areKeyed fields
  | _ => true

def areKeyed : List (Text × Json) → Bool
  | [] => true
  | (_, value) :: fields => isKeyed value && areKeyed fields

end

mutual

theorem isKeyed_iff (value : Json) : isKeyed value = true ↔ Keyed value := by
  cases value with
  | object fields =>
    rw [isKeyed, Bool.and_eq_true, decide_eq_true_eq, areKeyed_iff, Keyed.object_iff]
  | _ => exact iff_of_true (by rw [isKeyed]; nofun) (.of_not_object rfl)

theorem areKeyed_iff (fields : List (Text × Json)) :
    areKeyed fields = true ↔ ∀ field ∈ fields, Keyed field.2 := by
  cases fields with
  | nil => exact iff_of_true (by rw [areKeyed]) (List.forall_mem_nil _)
  | cons field fields =>
    rw [areKeyed, Bool.and_eq_true, isKeyed_iff, areKeyed_iff, List.forall_mem_cons]

end

instance : DecidablePred Keyed := fun value => decidable_of_iff _ (isKeyed_iff value)

/-! ## Going into objects -/

theorem sizeOf_lt_of_lookup {inner : List (Text × Json)}
    (h : fields.lookup key = some (.object inner)) : sizeOf inner < sizeOf fields := by
  have hlt := List.sizeOf_lt_of_mem (mem_of_lookup h)
  simp only [Prod.mk.sizeOf_spec, object.sizeOf_spec] at hlt
  omega

/-- What holds of fields if it holds of those of all objects under them holds of all fields. -/
theorem fields_induction {P : List (Text × Json) → Prop}
    (step : ∀ fields, (∀ key inner, fields.lookup key = some (.object inner) → P inner) → P fields)
    (fields : List (Text × Json)) : P fields :=
  step fields fun _ inner h =>
    have : sizeOf inner < sizeOf fields := sizeOf_lt_of_lookup h
    fields_induction step inner
termination_by sizeOf fields

end ApiReference.Json
