import ApiReference.Inheritance.Members
import Mathlib.Order.Bounds.Basic

/-!
# Distances in the inheritance graph

`ancestors` goes up the graph level by level.  Here its levels are compared with
the lengths of the ways up: when the walk has taken `d` levels, it has visited
what some way of at most `d` steps reaches, and it goes on with the parents of
what lies at distance `d` (`AtLevel`).  One level keeps this (`AtLevel.next`),
and so the whole walk meets every strict ancestor once and nearer ones first,
whatever cycles, diamonds and labels the graph has.
-/

namespace ApiReference.Inheritance

open Declaration Scope

variable {g : Graph} {a b c : Address} {n d : Nat}

/-! ## Ways up -/

/-- A way of `n` steps up from `a`, each to a parent that is declared. -/
inductive Ascent (g : Graph) (a : Address) : Nat → Address → Prop
  /-- No step stays where it is. -/
  | refl : Ascent g a 0 a
  /-- One more step goes to a declared parent of where the way has come to. -/
  | tail {n : Nat} {b c : Address} :
      Ascent g a n b → Ref.declaration c ∈ g.parentsOf b → Ascent g a (n + 1) c

/-- The distance of `b` from `a` is the length of the shortest way up. -/
def IsDistance (g : Graph) (a b : Address) (n : Nat) : Prop :=
  IsLeast {m | Ascent g a m b} n

/-- A strict ancestor is reached in one or more steps and is not `a` itself. -/
def StrictAncestor (g : Graph) (a b : Address) : Prop :=
  b ≠ a ∧ ∃ n, 1 ≤ n ∧ Ascent g a n b

/-- A way of no steps has not moved. -/
theorem ascent_zero_iff : Ascent g a 0 b ↔ b = a := by
  constructor
  · intro h
    cases h
    rfl
  · rintro rfl
    exact .refl

theorem ascent_succ_iff :
    Ascent g a (n + 1) c ↔ ∃ b, Ascent g a n b ∧ Ref.declaration c ∈ g.parentsOf b := by
  constructor
  · intro h
    cases h with
    | tail hb hc => exact ⟨_, hb, hc⟩
  · rintro ⟨b, hb, hc⟩
    exact .tail hb hc

/-- What is reached at all has a distance, and no way is shorter. -/
theorem Ascent.exists_isDistance (h : Ascent g a n b) : ∃ m ≤ n, IsDistance g a b m := by
  induction n using Nat.strong_induction_on with
  | _ n ih =>
    by_cases hs : ∃ m < n, Ascent g a m b
    · obtain ⟨m, hm, hb⟩ := hs
      obtain ⟨k, hk, hd⟩ := ih m hm hb
      exact ⟨k, hk.trans hm.le, hd⟩
    · refine ⟨n, le_rfl, h, fun m hm => ?_⟩
      by_contra hlt
      exact hs ⟨m, not_le.mp hlt, hm⟩

theorem IsDistance.unique {m : Nat} (hm : IsDistance g a b m) (hn : IsDistance g a b n) : m = n :=
  IsLeast.unique hm hn

/-- What lies one step further has a parent link from something that does not. -/
theorem IsDistance.exists_parent (h : IsDistance g a c (n + 1)) :
    ∃ b, IsDistance g a b n ∧ Ref.declaration c ∈ g.parentsOf b := by
  obtain ⟨b, hb, hc⟩ := ascent_succ_iff.mp h.1
  refine ⟨b, ⟨hb, fun m hm => ?_⟩, hc⟩
  exact Nat.le_of_succ_le_succ (h.2 (Ascent.tail hm hc))

/-- Beyond an empty level there is nothing. -/
theorem not_isDistance_of_lt (hd : ∀ b, ¬ IsDistance g a b d) (hn : d ≤ n) (b : Address) :
    ¬ IsDistance g a b n := by
  induction n, hn using Nat.le_induction generalizing b with
  | base => exact hd b
  | succ n _ ih =>
    intro h
    obtain ⟨c, hc, _⟩ := h.exists_parent
    exact ih c hc

/-- The strict ancestors are what lies at a distance of one or more. -/
theorem strictAncestor_iff : StrictAncestor g a b ↔ ∃ n, 0 < n ∧ IsDistance g a b n := by
  constructor
  · rintro ⟨hne, m, _, hm⟩
    obtain ⟨n, _, hn⟩ := hm.exists_isDistance
    refine ⟨n, Nat.pos_of_ne_zero fun h0 => ?_, hn⟩
    subst h0
    exact hne (ascent_zero_iff.mp hn.1)
  · rintro ⟨n, hpos, hn⟩
    refine ⟨fun hba => ?_, n, hpos, hn.1⟩
    have h0 : n ≤ 0 := hn.2 (ascent_zero_iff.mpr hba)
    omega

/-! ## One level of the walk -/

theorem mem_newAncestors {visited : List Address} {refs : List Ref} :
    b ∈ newAncestors visited refs ↔ Ref.declaration b ∈ refs ∧ b ∉ visited := by
  induction refs generalizing visited with
  | nil => simp [newAncestors]
  | cons ref refs ih =>
    cases ref with
    | label name => simp [newAncestors, ih]
    | declaration c =>
      by_cases hc : c ∈ visited
      · simp only [newAncestors, List.contains_eq_mem, hc, decide_true, if_true, ih,
          List.mem_cons, Ref.declaration.injEq]
        constructor
        · exact fun h => ⟨Or.inr h.1, h.2⟩
        · rintro ⟨rfl | h, hv⟩
          · exact absurd hc hv
          · exact ⟨h, hv⟩
      · simp only [newAncestors, List.contains_eq_mem, hc, decide_false, Bool.false_eq_true,
          if_false, ih, List.mem_cons, Ref.declaration.injEq, not_or]
        constructor
        · rintro (rfl | ⟨h, _, hv⟩)
          · exact ⟨Or.inl rfl, hc⟩
          · exact ⟨Or.inr h, hv⟩
        · rintro ⟨h, hv⟩
          by_cases hbc : b = c
          · exact Or.inl hbc
          · exact Or.inr ⟨h.resolve_left hbc, hbc, hv⟩

theorem nodup_newAncestors (visited : List Address) (refs : List Ref) :
    (newAncestors visited refs).Nodup := by
  induction refs generalizing visited with
  | nil => exact List.nodup_nil
  | cons ref refs ih =>
    cases ref with
    | label name => exact ih visited
    | declaration c =>
      simp only [newAncestors]
      split
      · exact ih visited
      · refine List.nodup_cons.mpr ⟨fun hc => ?_, ih _⟩
        exact newAncestors_not_mem hc (List.mem_cons_self ..)

/-- The walk up from `a` after `d` levels. -/
structure AtLevel (g : Graph) (a : Address) (d : Nat) (visited : List Address)
    (current : List Ref) : Prop where
  /-- What at most `d` steps reach has been visited, and nothing else. -/
  mem_visited : ∀ b, b ∈ visited ↔ ∃ n ≤ d, Ascent g a n b
  /-- The walk goes on with the declared parents of what lies at distance `d`. -/
  mem_current : ∀ b, Ref.declaration b ∈ current ↔
    ∃ c, IsDistance g a c d ∧ Ref.declaration b ∈ g.parentsOf c

namespace AtLevel

variable {visited : List Address} {current : List Ref}

/-- The walk starts with nothing but `a` visited. -/
theorem start (g : Graph) (a : Address) : AtLevel g a 0 [a] (g.parentsOf a) where
  mem_visited b := by simp [ascent_zero_iff]
  mem_current b := by
    have hzero : ∀ c, IsDistance g a c 0 ↔ c = a := fun c =>
      ⟨fun h => ascent_zero_iff.mp h.1, fun h => ⟨ascent_zero_iff.mpr h, fun _ _ => Nat.zero_le _⟩⟩
    simp [hzero]

/-- A level of the walk finds what lies one step further. -/
theorem mem_newAncestors_iff (h : AtLevel g a d visited current) :
    b ∈ newAncestors visited current ↔ IsDistance g a b (d + 1) := by
  rw [mem_newAncestors, h.mem_current, h.mem_visited]
  constructor
  · rintro ⟨⟨c, hc, hb⟩, hnew⟩
    refine ⟨.tail hc.1 hb, fun m hm => ?_⟩
    by_contra hlt
    exact hnew ⟨m, by omega, hm⟩
  · intro hb
    refine ⟨hb.exists_parent, ?_⟩
    rintro ⟨m, hm, hasc⟩
    have hle : d + 1 ≤ m := hb.2 hasc
    omega

/-- After one more level the invariant holds one step further. -/
theorem next (h : AtLevel g a d visited current) :
    AtLevel g a (d + 1) (newAncestors visited current ++ visited)
      ((newAncestors visited current).flatMap g.parentsOf) where
  mem_visited b := by
    rw [List.mem_append, h.mem_newAncestors_iff, h.mem_visited]
    constructor
    · rintro (hb | ⟨m, hm, hb⟩)
      · exact ⟨d + 1, le_rfl, hb.1⟩
      · exact ⟨m, by omega, hb⟩
    · rintro ⟨m, hm, hb⟩
      obtain ⟨k, hk, hd⟩ := hb.exists_isDistance
      rcases Nat.lt_or_ge d k with hlt | hge
      · have hkd : k = d + 1 := by omega
        exact Or.inl (hkd ▸ hd)
      · exact Or.inr ⟨k, hge, hd.1⟩
  mem_current b := by
    simp only [List.mem_flatMap, h.mem_newAncestors_iff]

/-! ## The whole walk -/

/-- A walk that has taken `d` levels still meets all that lies further, and only that. -/
theorem mem_ancestorsFrom (h : AtLevel g a d visited current) :
    b ∈ ancestorsFrom g visited current ↔ ∃ n, d < n ∧ IsDistance g a b n := by
  induction visited, current using ancestorsFrom.induct g generalizing d with
  | case1 visited current found =>
    rename_i hnil
    rw [ancestorsFrom, dif_pos hnil]
    have hnone : ∀ c, ¬ IsDistance g a c (d + 1) := fun c hc => by
      have hmem : c ∈ found := h.mem_newAncestors_iff.mpr hc
      rw [hnil] at hmem
      exact List.not_mem_nil hmem
    simp only [List.not_mem_nil, false_iff, not_exists, not_and]
    exact fun n hn => not_isDistance_of_lt hnone hn b
  | case2 visited current found =>
    rename_i hne ih
    rw [ancestorsFrom, dif_neg hne, List.mem_append, h.mem_newAncestors_iff, ih h.next]
    constructor
    · rintro (hb | ⟨n, hn, hb⟩)
      · exact ⟨d + 1, by omega, hb⟩
      · exact ⟨n, by omega, hb⟩
    · rintro ⟨n, hn, hb⟩
      rcases Nat.lt_or_ge (d + 1) n with hlt | hge
      · exact Or.inr ⟨n, hlt, hb⟩
      · have hnd : n = d + 1 := by omega
        exact Or.inl (hnd ▸ hb)

theorem nodup_ancestorsFrom (h : AtLevel g a d visited current) :
    (ancestorsFrom g visited current).Nodup := by
  induction visited, current using ancestorsFrom.induct g generalizing d with
  | case1 visited current found =>
    rename_i hnil
    rw [ancestorsFrom, dif_pos hnil]
    exact List.nodup_nil
  | case2 visited current found =>
    rename_i hne ih
    rw [ancestorsFrom, dif_neg hne]
    refine List.nodup_append.mpr ⟨nodup_newAncestors _ _, ih h.next, ?_⟩
    rintro b hb c hc rfl
    obtain ⟨n, hn, hd⟩ := h.next.mem_ancestorsFrom.mp hc
    have hnd : n = d + 1 := hd.unique (h.mem_newAncestors_iff.mp hb)
    omega

/-- Nothing met later lies nearer. -/
theorem pairwise_ancestorsFrom (h : AtLevel g a d visited current) :
    (ancestorsFrom g visited current).Pairwise fun b c =>
      ∀ m n, IsDistance g a b m → IsDistance g a c n → m ≤ n := by
  induction visited, current using ancestorsFrom.induct g generalizing d with
  | case1 visited current found =>
    rename_i hnil
    rw [ancestorsFrom, dif_pos hnil]
    exact List.Pairwise.nil
  | case2 visited current found =>
    rename_i hne ih
    rw [ancestorsFrom, dif_neg hne]
    refine List.pairwise_append.mpr ⟨?_, ih h.next, ?_⟩
    · refine List.pairwise_of_forall_mem_list fun b hb c hc m n hm hn => ?_
      have hmd : m = d + 1 := hm.unique (h.mem_newAncestors_iff.mp hb)
      have hnd : n = d + 1 := hn.unique (h.mem_newAncestors_iff.mp hc)
      omega
    · intro b hb c hc m n hm hn
      have hmd : m = d + 1 := hm.unique (h.mem_newAncestors_iff.mp hb)
      obtain ⟨k, hk, hkc⟩ := h.next.mem_ancestorsFrom.mp hc
      have hnk : n = k := hn.unique hkc
      omega

end AtLevel

/-! ## Ancestors -/

theorem mem_ancestors_iff : b ∈ ancestors g a ↔ StrictAncestor g a b := by
  rw [strictAncestor_iff]
  exact (AtLevel.start g a).mem_ancestorsFrom

theorem nodup_ancestors (g : Graph) (a : Address) : (ancestors g a).Nodup :=
  (AtLevel.start g a).nodup_ancestorsFrom

theorem pairwise_ancestors (g : Graph) (a : Address) :
    (ancestors g a).Pairwise fun b c =>
      ∀ m n, IsDistance g a b m → IsDistance g a c n → m ≤ n :=
  (AtLevel.start g a).pairwise_ancestorsFrom

end ApiReference.Inheritance
