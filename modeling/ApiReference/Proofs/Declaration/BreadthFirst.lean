import ApiReference.Proofs.Declaration.Reordered
import Mathlib.Data.List.Lex

/-!
# Level by level

`breadthFirst` joins the levels of the members of a declaration.  What comes out is the
order of a queue that starts with the root and at whose end the members of each
declaration line up when its turn comes (`IsBreadthFirst`).  The reason is that every
level lists the members of the one before it, in turn (`Levels`), and that joining two
runs of levels keeps this.
-/

namespace ApiReference.Declaration

variable {root d : Declaration} {a b : Address} {n : Nat}
variable {level : List Address} {levels levels' : List (List Address)}

/-- What is nearer to the root, or equally near but in front. -/
def Nearer (a b : Address) : Prop := a.length < b.length ∨ a.length = b.length ∧ a < b

/-- The declarations of a tree as they come out of a queue. -/
structure IsBreadthFirst (root : Declaration) (as : List Address) : Prop where
  /-- Nothing is met twice. -/
  nodup : as.Nodup
  /-- Whatever stands in the tree is met, and nothing else. -/
  mem_iff : ∀ a, a ∈ as ↔ (root.get? a).isSome
  /-- First comes the root, and then the members of each that is met, in the order in which these
  are met. -/
  queue_eq : as = [] :: as.flatMap root.membersAt
  nearer : as.Pairwise Nearer

/-! ## Levels -/

/-- Every level lists the members of the one before, and those of the last have none. -/
inductive Levels (root : Declaration) : List (List Address) → Prop
  | nil : Levels root []
  | cons {level : List Address} {levels : List (List Address)} :
      levels.headD [] = level.flatMap root.membersAt → Levels root levels →
      Levels root (level :: levels)

theorem headD_zipLevels {α : Type} (xs ys : List (List α)) :
    (zipLevels xs ys).headD [] = xs.headD [] ++ ys.headD [] := by
  cases xs with
  | nil => rw [zipLevels, List.headD_nil, List.nil_append]
  | cons x xs =>
    cases ys with
    | nil => exact (List.append_nil _).symm
    | cons y ys => rfl

theorem Levels.zipLevels (h : Levels root levels) (h' : Levels root levels') :
    Levels root (zipLevels levels levels') := by
  induction h generalizing levels' with
  | nil => rwa [Declaration.zipLevels]
  | @cons level levels hhead hlevels ih =>
    cases h' with
    | nil => exact .cons hhead hlevels
    | cons hhead' hlevels' =>
      refine .cons ?_ (ih hlevels')
      rw [headD_zipLevels, hhead, hhead', List.flatMap_append]

theorem headD_levelsMembers (a : Address) (k : Nat) (ms : List Declaration) :
    (levelsMembers a k ms).headD [] = (List.range' k ms.length).map fun i => a ++ [i] := by
  induction ms generalizing k with
  | nil => rfl
  | cons m ms ih =>
    have hfirst : (levelsFrom (a ++ [k]) m).headD [] = [a ++ [k]] := by
      cases m
      rfl
    rw [levelsMembers, headD_zipLevels, ih, hfirst, List.length_cons, List.range'_succ,
      List.map_cons]
    rfl

theorem membersAt_eq (hd : root.get? a = some d) :
    root.membersAt a = (List.range' 0 d.members.length).map fun i => a ++ [i] := by
  rw [membersAt, hd, ← List.range_eq_range']
  rfl

mutual

/-- The levels of a declaration of the tree. -/
theorem levels_levelsFrom (a : Address) :
    (d : Declaration) → root.get? a = some d → Levels root (levelsFrom a d)
  | ⟨i, ms⟩, hd => by
    rw [levelsFrom]
    refine .cons ?_ (levels_levelsMembers a 0 ms fun n m hm => ?_)
    · rw [List.flatMap_singleton, membersAt_eq hd]
      exact headD_levelsMembers a 0 ms
    · rw [Nat.zero_add, get?_concat hd]
      exact hm

/-- The levels of the members from index `k` on. -/
theorem levels_levelsMembers (a : Address) (k : Nat) : (ms : List Declaration) →
    (∀ n m, ms[n]? = some m → root.get? (a ++ [k + n]) = some m) →
    Levels root (levelsMembers a k ms)
  | [], _ => .nil
  | m :: ms, hms => by
    rw [levelsMembers]
    apply Levels.zipLevels
    · exact levels_levelsFrom _ m (hms 0 m rfl)
    · apply levels_levelsMembers a (k + 1) ms
      intro n m' hm'
      have hnext := hms (n + 1) m' hm'
      rwa [Nat.add_comm n 1, ← Nat.add_assoc] at hnext

end

/-! ## The queue -/

/-- After the first level the members of all that is met follow. -/
theorem Levels.flatten_eq (h : Levels root levels) :
    levels.flatten = levels.headD [] ++ levels.flatten.flatMap root.membersAt := by
  induction h with
  | nil => rfl
  | @cons level levels hhead _ ih =>
    rw [List.flatten_cons, List.headD_cons, List.flatMap_append, ← hhead, ← ih]

/-! ## Nearness -/

/-- The declarations of one level, in the order of their addresses. -/
structure IsLevel (n : Nat) (level : List Address) : Prop where
  length_eq : ∀ a ∈ level, a.length = n
  sorted : level.Pairwise (· < ·)

/-- Of two addresses of one length, what follows the first comes before what follows the other. -/
theorem append_lt_append_of_lt {s t : Address} (h : a < b) (hlength : a.length = b.length) :
    a ++ s < b ++ t := by
  induction a generalizing b with
  | nil =>
    rw [List.eq_nil_of_length_eq_zero hlength.symm] at h
    exact absurd h (lt_irrefl _)
  | cons i a ih =>
    obtain ⟨j, b, rfl⟩ := List.exists_cons_of_length_eq_add_one hlength.symm
    rw [List.cons_append, List.cons_append, List.cons_lt_cons_iff]
    rcases List.cons_lt_cons_iff.mp h with hij | ⟨rfl, hab⟩
    · exact .inl hij
    · exact .inr ⟨rfl, ih hab (Nat.succ.inj hlength)⟩

theorem pairwise_membersAt (root : Declaration) (a : Address) :
    (root.membersAt a).Pairwise (· < ·) := by
  unfold membersAt
  split
  · refine List.pairwise_map.mpr (List.pairwise_lt_range.imp fun hij => ?_)
    exact List.append_left_lt (List.cons_lt_cons_iff.mpr (.inl hij))
  · exact .nil

theorem exists_of_mem_membersAt (h : b ∈ root.membersAt a) : ∃ i, b = a ++ [i] := by
  unfold membersAt at h
  split at h
  · obtain ⟨i, _, rfl⟩ := List.mem_map.mp h
    exact ⟨i, rfl⟩
  · exact absurd h List.not_mem_nil

theorem IsLevel.flatMap (h : IsLevel n level) (root : Declaration) :
    IsLevel (n + 1) (level.flatMap root.membersAt) := by
  constructor
  · intro b hb
    obtain ⟨a, ha, hb⟩ := List.mem_flatMap.mp hb
    obtain ⟨i, rfl⟩ := exists_of_mem_membersAt hb
    rw [List.length_append, h.length_eq a ha, List.length_singleton]
  · refine List.pairwise_flatMap.mpr ⟨fun a _ => pairwise_membersAt root a, ?_⟩
    apply h.sorted.imp_of_mem
    intro a b ha hb hlt a' ha' b' hb'
    obtain ⟨i, rfl⟩ := exists_of_mem_membersAt ha'
    obtain ⟨j, rfl⟩ := exists_of_mem_membersAt hb'
    exact append_lt_append_of_lt hlt ((h.length_eq a ha).trans (h.length_eq b hb).symm)

/-- Every level is farther away than those before it. -/
theorem Levels.pairwise_flatten (h : Levels root levels) (hfirst : IsLevel n (levels.headD [])) :
    (∀ a ∈ levels.flatten, n ≤ a.length) ∧ levels.flatten.Pairwise Nearer := by
  induction h generalizing n with
  | nil => exact ⟨List.forall_mem_nil _, .nil⟩
  | @cons level levels hhead _ ih =>
    rw [List.headD_cons] at hfirst
    obtain ⟨hfar, hnearer⟩ := ih (hhead ▸ hfirst.flatMap root)
    rw [List.flatten_cons]
    constructor
    · intro a ha
      rcases List.mem_append.mp ha with ha | ha
      · exact (hfirst.length_eq a ha).ge
      · exact Nat.le_of_succ_le (hfar a ha)
    · refine List.pairwise_append.mpr ⟨?_, hnearer, ?_⟩
      · apply hfirst.sorted.imp_of_mem
        intro a b ha hb hlt
        exact .inr ⟨(hfirst.length_eq a ha).trans (hfirst.length_eq b hb).symm, hlt⟩
      · intro a ha b hb
        apply Or.inl
        rw [hfirst.length_eq a ha]
        exact hfar b hb

/-- The levels of a tree are those of a queue that starts with the root. -/
theorem isBreadthFirst_breadthFirst (root : Declaration) :
    IsBreadthFirst root root.breadthFirst := by
  have hlevels : Levels root (levelsFrom [] root) := levels_levelsFrom [] root rfl
  have hroot : (levelsFrom [] root).headD [] = [[]] := by
    cases root
    rfl
  constructor
  · exact (perm_breadthFirst root).nodup_iff.mpr (nodup_walk root)
  · intro a
    rw [(perm_breadthFirst root).mem_iff, mem_walk]
  · have hqueue := hlevels.flatten_eq
    rw [hroot] at hqueue
    exact hqueue
  · have hfirst : IsLevel 0 [[]] :=
      ⟨fun a ha => by rw [List.mem_singleton.mp ha]; rfl, List.pairwise_singleton _ _⟩
    exact (hlevels.pairwise_flatten (hroot ▸ hfirst)).2

end ApiReference.Declaration
