import ApiReference.Proofs.Inheritance.Hierarchy
import ApiReference.Proofs.Text.Trim

/-!
# Outlines of trees

The outline of a tree is what a diagram shows of its shape: the items one after the
other, each before those below it, with their depths.  The shape is not lost by that.
What stands right behind an item and is deeper is below it, and so the tree is read
back from its outline (`nest_outline`).
-/

namespace ApiReference.Inheritance.Tree

open Scope

mutual

/-- The items of a tree with their depths, in the order in which a diagram shows them. -/
def outline (depth : Nat) : Tree → List (Nat × Ref)
  | node item children => (depth, item) :: outlineAll (depth + 1) children

def outlineAll (depth : Nat) : List Tree → List (Nat × Ref)
  | [] => []
  | t :: ts => outline depth t ++ outlineAll depth ts

end

mutual

/-- The outline has the items of the tree and no others. -/
theorem map_snd_outline (depth : Nat) : (t : Tree) → (t.outline depth).map Prod.snd = t.items
  | node item children => by
    rw [outline, List.map_cons, map_snd_outlineAll, items]

theorem map_snd_outlineAll (depth : Nat) :
    (ts : List Tree) → (outlineAll depth ts).map Prod.snd = itemsAll ts
  | [] => rfl
  | t :: ts => by
    rw [outlineAll, List.map_append, map_snd_outline, map_snd_outlineAll, itemsAll]

end

mutual

theorem le_of_mem_outline {depth : Nat} {entry : Nat × Ref} :
    (t : Tree) → entry ∈ t.outline depth → depth ≤ entry.1
  | node item children, h => by
    rcases List.mem_cons.mp h with rfl | h
    · exact le_rfl
    · exact Nat.le_of_succ_le (le_of_mem_outlineAll children h)

theorem le_of_mem_outlineAll {depth : Nat} {entry : Nat × Ref} :
    (ts : List Tree) → entry ∈ outlineAll depth ts → depth ≤ entry.1
  | t :: ts, h =>
    (List.mem_append.mp h).elim (le_of_mem_outline t) (le_of_mem_outlineAll ts)

end

/-! ## Reading back -/

/-- The trees that an outline shows. -/
def nest : List (Nat × Ref) → List Tree
  | [] => []
  | (depth, item) :: rest =>
    node item (nest (rest.takeWhile fun entry => depth < entry.1)) ::
      nest (rest.dropWhile fun entry => depth < entry.1)
termination_by entries => entries.length
decreasing_by
  · exact Nat.lt_succ_of_le (List.takeWhile_sublist _).length_le
  · exact Nat.lt_succ_of_le (List.dropWhile_sublist _).length_le

/-- Trees of one depth are told apart by the entries that are no deeper. -/
theorem nest_outline_append (depth : Nat) (item : Ref) (children ts : List Tree) :
    nest ((node item children).outline depth ++ outlineAll depth ts) =
      node item (nest (outlineAll (depth + 1) children)) :: nest (outlineAll depth ts) := by
  have hdeeper : (outlineAll (depth + 1) children).all (fun entry => depth < entry.1) = true :=
    List.all_eq_true.mpr fun entry h => decide_eq_true (le_of_mem_outlineAll children h)
  have hnext : ∀ entry ∈ (outlineAll depth ts).head?, decide (depth < entry.1) = false := by
    cases ts with
    | nil => rintro entry ⟨⟩
    | cons t ts =>
      obtain ⟨item, children⟩ := t
      rintro entry h
      obtain rfl : (depth, item) = entry := Option.some.inj h
      exact decide_eq_false (lt_irrefl depth)
  rw [outline, List.cons_append, nest, Text.takeWhile_run hdeeper hnext,
    Text.dropWhile_run hdeeper hnext]

/-- Trees are read back from their outlines. -/
theorem nest_outlineAll (depth : Nat) : (ts : List Tree) → nest (outlineAll depth ts) = ts
  | [] => by rw [outlineAll, nest]
  | node item children :: ts => by
    rw [outlineAll, nest_outline_append, nest_outlineAll (depth + 1) children,
      nest_outlineAll depth ts]

theorem nest_outline (depth : Nat) (t : Tree) : nest (t.outline depth) = [t] := by
  have hone := nest_outlineAll depth [t]
  rwa [outlineAll, outlineAll, List.append_nil] at hone

/-! ## Other items -/

mutual

/-- A tree of the same shape with other items. -/
def mapItems (f : Ref → Ref) : Tree → Tree
  | node item children => node (f item) (mapItemsAll f children)

def mapItemsAll (f : Ref → Ref) : List Tree → List Tree
  | [] => []
  | t :: ts => mapItems f t :: mapItemsAll f ts

end

mutual

theorem outline_mapItems (f : Ref → Ref) (depth : Nat) : (t : Tree) →
    (t.mapItems f).outline depth = (t.outline depth).map fun entry => (entry.1, f entry.2)
  | node item children => by
    rw [mapItems, outline, outline, outlineAll_mapItemsAll, List.map_cons]

theorem outlineAll_mapItemsAll (f : Ref → Ref) (depth : Nat) : (ts : List Tree) →
    outlineAll depth (mapItemsAll f ts) =
      (outlineAll depth ts).map fun entry => (entry.1, f entry.2)
  | [] => rfl
  | t :: ts => by
    rw [mapItemsAll, outlineAll, outlineAll, outline_mapItems, outlineAll_mapItemsAll,
      List.map_append]

end

end ApiReference.Inheritance.Tree
