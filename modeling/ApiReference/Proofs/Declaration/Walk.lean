import ApiReference.Declaration.Lineage
import Mathlib.Data.List.Lex

/-!
# The walk over a declaration

`walk` lists the addresses of a declaration and of all inside it.  It meets exactly
the addresses at which something stands (`mem_walk`), in the lexicographic order of
addresses, in which a container comes before its members and a member with all
inside it before the next one (`pairwise_walk`).
-/

namespace ApiReference.Declaration

theorem get?_cons (i : Info) (ms : List Declaration) (n : Nat) (c : Address) :
    get? ⟨i, ms⟩ (n :: c) = ms[n]?.bind fun m => m.get? c := by
  simp only [get?]
  cases ms[n]? <;> rfl

mutual

/-- Below `a` the walk meets what stands inside the declaration at `a`. -/
theorem mem_walkFrom {a b : Address} :
    (d : Declaration) → (b ∈ walkFrom a d ↔ ∃ c, b = a ++ c ∧ (d.get? c).isSome)
  | ⟨i, ms⟩ => by
    rw [walkFrom, List.mem_cons, mem_walkMembers ms]
    constructor
    · rintro (rfl | ⟨n, c, m, rfl, hm, hc⟩)
      · exact ⟨[], (List.append_nil _).symm, rfl⟩
      · exact ⟨n :: c, by rw [Nat.zero_add], by rw [get?_cons, hm]; exact hc⟩
    · rintro ⟨c, rfl, hc⟩
      cases c with
      | nil => exact Or.inl (List.append_nil _)
      | cons n c =>
        rw [get?_cons] at hc
        obtain ⟨m, hm⟩ := Option.isSome_iff_exists.mp (Option.isSome_of_isSome_bind hc)
        rw [hm] at hc
        exact Or.inr ⟨n, c, m, by rw [Nat.zero_add], hm, hc⟩

/-- Members from index `k` on are met under their indices. -/
theorem mem_walkMembers {a b : Address} {k : Nat} :
    (ms : List Declaration) → (b ∈ walkMembers a k ms ↔
      ∃ n c m, b = a ++ (k + n) :: c ∧ ms[n]? = some m ∧ (get? m c).isSome)
  | [] => by simp [walkMembers]
  | m :: ms => by
    rw [walkMembers, List.mem_append, mem_walkFrom m, mem_walkMembers ms]
    constructor
    · rintro (⟨c, rfl, hc⟩ | ⟨n, c, m', rfl, hm, hc⟩)
      · exact ⟨0, c, m, by simp, rfl, hc⟩
      · exact ⟨n + 1, c, m', by rw [Nat.add_assoc, Nat.add_comm 1], hm, hc⟩
    · rintro ⟨n, c, m', rfl, hm, hc⟩
      cases n with
      | zero =>
        obtain rfl := Option.some.inj hm
        exact Or.inl ⟨c, by simp, hc⟩
      | succ n => exact Or.inr ⟨n, c, m', by rw [Nat.add_assoc, Nat.add_comm 1], hm, hc⟩

end

/-- The walk meets exactly the addresses of the tree. -/
theorem mem_walk {root : Declaration} {a : Address} : a ∈ root.walk ↔ (root.get? a).isSome := by
  rw [walk, mem_walkFrom]
  simp

mutual

theorem pairwise_walkFrom (a : Address) :
    (d : Declaration) → (walkFrom a d).Pairwise (· < ·)
  | ⟨i, ms⟩ => by
    rw [walkFrom]
    refine List.pairwise_cons.mpr ⟨fun b hb => ?_, pairwise_walkMembers a 0 ms⟩
    obtain ⟨n, c, _, rfl, _⟩ := (mem_walkMembers ms).mp hb
    have hlt : a ++ [] < a ++ (0 + n) :: c := List.append_left_lt (List.nil_lt_cons _ _)
    rwa [List.append_nil] at hlt

theorem pairwise_walkMembers (a : Address) (k : Nat) :
    (ms : List Declaration) → (walkMembers a k ms).Pairwise (· < ·)
  | [] => List.Pairwise.nil
  | m :: ms => by
    rw [walkMembers]
    refine List.pairwise_append.mpr
      ⟨pairwise_walkFrom _ m, pairwise_walkMembers a (k + 1) ms, fun b hb b' hb' => ?_⟩
    obtain ⟨c, rfl, _⟩ := (mem_walkFrom m).mp hb
    obtain ⟨n, c', _, rfl, _⟩ := (mem_walkMembers ms).mp hb'
    rw [List.append_assoc]
    refine List.append_left_lt (List.cons_lt_cons_iff.mpr (Or.inl ?_))
    omega

end

/-- The walk goes through the addresses in their order. -/
theorem pairwise_walk (root : Declaration) : root.walk.Pairwise (· < ·) := pairwise_walkFrom [] root

theorem nodup_walk (root : Declaration) : root.walk.Nodup :=
  (pairwise_walk root).imp fun h => ne_of_lt h

end ApiReference.Declaration
