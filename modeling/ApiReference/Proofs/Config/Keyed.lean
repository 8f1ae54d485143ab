import ApiReference.Proofs.Diagnostics.Outcome
import ApiReference.Proofs.Json.Fields
import ApiReference.Site.CommandLine

/-!
# Keys of configurations

A document may repeat a key, but the value that is read from it has each key once in
every object (`keyed_of_parse`): a repeated field takes the place of the first one.
Merging keeps this, so that it holds of the configuration of a run whose reader of
configuration files gives such values (`Site.Request.keyed_config`).
-/

namespace ApiReference

namespace Json

variable {α β : Type} {key input : Text} {v w : Json} {base update fields : List (Text × Json)}

/-! ## Reading -/

theorem keyed_ofFields (h : ∀ field ∈ fields, Keyed field.2) : Keyed (ofFields fields) := by
  refine List.foldlRecOn (motive := fun known => Keyed (.object known)) fields _
    (.of_fields List.nodup_nil (List.forall_mem_nil _)) fun known hknown field hfield => ?_
  exact (h field hfield).insert hknown

/-- What a reader gives, if it gives anything, has a property. -/
def Gives (p : α → Prop) (x : Except Misread (α × Text)) : Prop := ∀ a rest, x = .ok (a, rest) → p a

namespace Gives

variable {p : α → Prop} {q : β → Prop}

theorem error (reason : Misread) : Gives p (.error reason) := nofun

theorem ok {a : α} {rest : Text} (h : p a) : Gives p (.ok (a, rest)) := by
  rintro _ _ ⟨⟩
  exact h

theorem bind {x : Except Misread (α × Text)} {f : α × Text → Except Misread (β × Text)}
    (hx : Gives p x) (hf : ∀ a rest, p a → Gives q (f (a, rest))) : Gives q (x >>= f) := by
  cases x with
  | error reason => exact error reason
  | ok found => exact hf found.1 found.2 (hx _ _ rfl)

theorem trivial (x : Except Misread (α × Text)) : Gives (fun _ => True) x := fun _ _ _ => ⟨⟩

end Gives

/-- A number or a word is no object. -/
theorem gives_number (negative : Bool) (input : Text) :
    Gives (·.isObject = false) (number negative input) := by
  unfold number
  split
  · exact .error _
  · dsimp only
    split
    · exact .ok rfl
    · split
      · exact .ok rfl
      · split
        · exact .error _
        · exact .ok rfl

theorem gives_word (input : Text) : Gives (·.isObject = false) (word input) := by
  have hwords : ∀ word ∈ words, word.2.isObject = false := by
    simp [words, isObject]
  rw [word]
  split
  · rename_i found hfound
    obtain ⟨word, hword, hfound⟩ := List.exists_of_findSome?_eq_some hfound
    obtain ⟨rest, -, rfl⟩ := Option.map_eq_some_iff.mp hfound
    exact .ok (hwords word hword)
  · exact .error _

theorem gives_atom (input : Text) : Gives (·.isObject = false) (atom input) := by
  unfold atom
  split <;> split
  · exact gives_number _ _
  · exact gives_word _
  · exact gives_number _ _
  · exact gives_word _

/-- The readers of values and of fields call each other with less fuel. -/
theorem gives_keyed (fuel : Nat) :
    (∀ depth input, Gives Keyed (value fuel depth input)) ∧
      ∀ depth input, Gives (∀ field ∈ ·, Keyed field.2) (Json.fields fuel depth input) := by
  induction fuel with
  | zero =>
    refine ⟨fun depth input => ?_, fun depth input => ?_⟩
    · rw [value]
      exact .error _
    · rw [Json.fields]
      exact .error _
  | succ fuel ih =>
    obtain ⟨hvalue, hfields⟩ := ih
    refine ⟨fun depth input => ?_, fun depth input => ?_⟩
    · rw [value.eq_def]
      dsimp only
      split
      · exact (Gives.trivial _).bind fun t rest _ => .ok (.of_not_object rfl)
      · exact .error _
      · exact .error _
      · split
        · exact .ok (.of_not_object rfl)
        · exact (Gives.trivial _).bind fun xs rest _ => .ok (.of_not_object rfl)
      · split
        · exact .ok (keyed_ofFields (List.forall_mem_nil _))
        · exact (hfields _ _).bind fun fs rest hfs => .ok (keyed_ofFields hfs)
      · exact fun x rest hx => .of_not_object (gives_atom _ x rest hx)
    · rw [Json.fields.eq_def]
      dsimp only
      split
      · refine (Gives.trivial _).bind fun key rest _ => ?_
        dsimp only
        split
        · refine (hvalue _ _).bind fun x rest hx => ?_
          dsimp only
          split
          · exact .ok (List.forall_mem_singleton.mpr hx)
          · exact (hfields _ _).bind fun fs rest hfs =>
              .ok (List.forall_mem_cons.mpr ⟨hx, hfs⟩)
          · exact .error _
        · exact .error _
      · exact .error _

/-- Whatever a document repeats, each key stands once in every object that is read. -/
theorem keyed_of_parse (h : parse input = .ok v) : Keyed v := by
  rw [parse] at h
  split at h
  · cases h
  · obtain ⟨⟨x, rest⟩, hvalue, h⟩ := bind_eq_ok.mp h
    dsimp only at h
    split at h
    · cases h
      exact (gives_keyed _).1 _ _ v rest hvalue
    · cases h

/-! ## Merging -/

/-- Fields stay apart if the values that are put in under their keys keep their own apart. -/
theorem keyed_of_mergeFields (hbase : Keyed (.object base))
    (hvalues : ∀ field ∈ update, ∀ old? merged, (∀ old ∈ old?, Keyed old) →
      mergeValue field.1 old? field.2 = .ok merged → Keyed merged)
    (h : mergeFields base update = .ok fields) : Keyed (.object fields) := by
  induction update generalizing base with
  | nil =>
    rw [mergeFields] at h
    cases h
    exact hbase
  | cons field update ih =>
    obtain ⟨hvalue, hvalues⟩ := List.forall_mem_cons.mp hvalues
    rw [mergeFields] at h
    obtain ⟨merged, hmerged, h⟩ := bind_eq_ok.mp h
    have hnew := hvalue _ merged (fun old hold => hbase.inside hold) hmerged
    exact ih (hnew.insert hbase) hvalues h

/-- What comes of a value that is put over another one. -/
theorem mergeValue_cases {old? : Option Json} (h : mergeValue key old? v = .ok w) :
    (∃ old new merged, old? = some (.object old) ∧ v = .object new ∧
      mergeFields old new = .ok merged ∧ w = .object merged) ∨
      (∃ old items, old? = some (.list old) ∧ v = .list items ∧ key ∈ additiveKeys ∧
        union old items = .ok w) ∨ w = v := by
  rw [mergeValue.eq_def] at h
  split at h
  · split at h
    · obtain ⟨merged, hmerged, h⟩ := bind_eq_ok.mp h
      cases h
      exact .inl ⟨_, _, merged, rfl, rfl, hmerged, rfl⟩
    · cases h
      exact .inr (.inr rfl)
  · split at h
    · split at h
      · rename_i hkey
        exact .inr (.inl ⟨_, _, rfl, rfl, List.contains_iff_mem.mp hkey, h⟩)
      · cases h
        exact .inr (.inr rfl)
    · cases h
      exact .inr (.inr rfl)
  · cases h
    exact .inr (.inr rfl)

theorem isObject_eq_false_of_union {xs ys : List Json} (h : union xs ys = .ok w) :
    w.isObject = false := by
  rw [union] at h
  split at h
  · cases h
  · split at h
    · cases h
    · cases h
      rfl

theorem keyed_mergeFields (update base fields : List (Text × Json)) (hbase : Keyed (.object base))
    (hupdate : Keyed (.object update)) (h : mergeFields base update = .ok fields) :
    Keyed (.object fields) := by
  induction update using fields_induction generalizing base fields with
  | step update ih =>
    refine keyed_of_mergeFields hbase (fun field hfield old? merged hold hmerged => ?_) h
    obtain ⟨key, value⟩ := field
    obtain ⟨old, new, result, rfl, rfl, hresult, rfl⟩ | ⟨_, _, -, -, -, hunion⟩ | rfl :=
      mergeValue_cases hmerged
    · have hnew := (lookup_eq_some_iff_mem hupdate.nodup).mpr hfield
      exact ih key new hnew old result (hold _ rfl) (hupdate.of_mem hfield) hresult
    · exact .of_not_object (isObject_eq_false_of_union hunion)
    · exact hupdate.of_mem hfield

theorem Keyed.merge (hv : Keyed v) (hw : Keyed w) {merged : Json} (h : merge v w = .ok merged) :
    Keyed merged := by
  rw [Json.merge.eq_def] at h
  split at h
  · obtain ⟨fields, hfields, h⟩ := bind_eq_ok.mp h
    cases h
    exact keyed_mergeFields _ _ fields hv hw hfields
  · rw [mergeIntoList.eq_def] at h
    split at h
    · cases h
      exact hv
    · split at h <;> cases h
    · cases h
  · cases h

end Json

namespace Config

open Json

variable {v : Json} {file? : Option Json}

/-! ## Configurations -/

theorem keyed_standard : Keyed standard := by
  decide

theorem keyed_load (hfile : ∀ file, file? = some file → Keyed file) (h : load file? = .ok v) :
    Keyed v := by
  cases file? with
  | none =>
    cases h
    exact keyed_standard
  | some file =>
    refine keyed_standard.merge ?_ h
    rw [orElse]
    split
    · exact hfile file rfl
    · exact .of_fields List.nodup_nil (List.forall_mem_nil _)

end Config

/-- If the reader of configuration files gives each key once then so does the configuration of a
run, whatever files there are. -/
theorem Site.Request.keyed_config {r : Request} {v : Json}
    (hyaml : ∀ text value, r.yaml text = some value → value.Keyed) (h : r.config = .ok v) :
    v.Keyed := by
  rw [config] at h
  split at h
  · exact Config.keyed_load (by rintro _ ⟨⟩) h
  · obtain ⟨found?, -, h⟩ := bind_eq_ok.mp h
    split at h
    · exact Config.keyed_load (by rintro _ ⟨⟩) h
    · obtain ⟨text, -, h⟩ := bind_eq_ok.mp h
      split at h
      · rename_i file hfile
        refine Config.keyed_load (fun value hvalue => ?_) h
        cases hvalue
        exact hyaml text file hfile
      · cases h

end ApiReference
