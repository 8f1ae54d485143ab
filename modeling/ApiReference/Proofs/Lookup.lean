import Mathlib.Data.List.Nodup

/-!
# Looking up in lists of pairs

Groups, graphs, type maps and the fields of objects are lists of pairs that are read
with `List.lookup`.  Where no key occurs twice, looking up and membership say the same,
and the keys in order with what is found under each are all there is to such a list.
-/

namespace ApiReference

variable {α β : Type} [BEq α] [LawfulBEq α] {entries entries' : List (α × β)} {a : α} {b : β}

theorem lookup_cons_of_ne {entry : α × β} (h : a ≠ entry.1) :
    (entry :: entries).lookup a = entries.lookup a := by
  rw [List.lookup_cons, beq_eq_false_iff_ne.mpr h]

/-- Something is found under the keys, and under nothing else. -/
theorem lookup_eq_none_iff_not_mem : entries.lookup a = none ↔ a ∉ entries.map Prod.fst := by
  rw [List.lookup_eq_none_iff, List.mem_map]
  constructor
  · rintro h ⟨entry, hentry, rfl⟩
    exact absurd (h entry hentry) (by simp)
  · intro h entry hentry
    exact bne_iff_ne.mpr fun heq => h ⟨entry, hentry, heq.symm⟩

theorem isSome_lookup_iff : (entries.lookup a).isSome = true ↔ a ∈ entries.map Prod.fst := by
  rw [Option.isSome_iff_ne_none, ne_eq, lookup_eq_none_iff_not_mem, not_not]

theorem mem_of_lookup (h : entries.lookup a = some b) : (a, b) ∈ entries := by
  obtain ⟨before, after, rfl, -⟩ := List.lookup_eq_some_iff.mp h
  exact List.mem_append_right before (List.mem_cons_self ..)

/-- Where a key has no two values, its value is found. -/
theorem lookup_eq_some_iff_of_unique
    (h : ∀ b b', (a, b) ∈ entries → (a, b') ∈ entries → b = b') :
    entries.lookup a = some b ↔ (a, b) ∈ entries := by
  constructor
  · exact mem_of_lookup
  · intro hb
    cases hl : entries.lookup a with
    | none =>
      have hne := List.lookup_eq_none_iff.mp hl _ hb
      simp at hne
    | some b' => rw [h b b' hb (mem_of_lookup hl)]

/-- Of keys that occur once, the one entry is found. -/
theorem lookup_eq_some_iff_mem (h : (entries.map Prod.fst).Nodup) :
    entries.lookup a = some b ↔ (a, b) ∈ entries :=
  lookup_eq_some_iff_of_unique fun _ _ hb hb' =>
    congrArg Prod.snd (List.inj_on_of_nodup_map h hb hb' rfl)

/-- Lists with the same keys in the same order, of which none occurs twice, are the same if the same
is found in both. -/
theorem eq_of_lookup (hkeys : entries.map Prod.fst = entries'.map Prod.fst)
    (hnodup : (entries.map Prod.fst).Nodup) (h : ∀ a, entries.lookup a = entries'.lookup a) :
    entries = entries' := by
  induction entries generalizing entries' with
  | nil => exact (List.map_eq_nil_iff.mp hkeys.symm).symm
  | cons entry entries ih =>
    cases entries' with
    | nil => cases hkeys
    | cons entry' entries' =>
      obtain ⟨a, b⟩ := entry
      obtain ⟨a', b'⟩ := entry'
      obtain ⟨rfl, hrest⟩ := List.cons_eq_cons.mp hkeys
      obtain ⟨hnew, hnodup⟩ := List.nodup_cons.mp hnodup
      obtain rfl : b = b' := by
        have hfound := h a
        rwa [List.lookup_cons_self, List.lookup_cons_self, Option.some_inj] at hfound
      refine congrArg ((a, b) :: ·) (ih hrest hnodup fun c => ?_)
      by_cases hc : c = a
      · rw [hc, lookup_eq_none_iff_not_mem.mpr hnew, lookup_eq_none_iff_not_mem.mpr (hrest ▸ hnew)]
      · have hfound := h c
        rwa [lookup_cons_of_ne hc, lookup_cons_of_ne hc] at hfound

/-- Changing what stands under the keys changes what is found. -/
theorem lookup_map_snd {γ : Type} (f : α → β → γ) (entries : List (α × β)) (a : α) :
    (entries.map fun entry => (entry.1, f entry.1 entry.2)).lookup a =
      (entries.lookup a).map (f a) := by
  induction entries with
  | nil => rfl
  | cons entry entries ih =>
    obtain ⟨k, b⟩ := entry
    rw [List.map_cons]
    by_cases h : a = k
    · subst h
      rw [List.lookup_cons_self, List.lookup_cons_self, Option.map_some]
    · rw [lookup_cons_of_ne h, lookup_cons_of_ne h, ih]

end ApiReference
