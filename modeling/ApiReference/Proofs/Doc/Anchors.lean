import ApiReference.Proofs.Doc.Sound

/-!
# Anchors

What can be linked to inside a page are its anchors, wherever they stand (`anchors`).
Those of a section are read off with the headings directly after them (`marks`), which
passes over all nodes in which there are none (`marks_append`).
-/

namespace ApiReference.Doc

open Node

variable {n : Node} {ns ns' : List Node}

/-- A tree without anchors. -/
def Unmarked (n : Node) : Prop := ∀ id, Node.anchor id ∉ n.inside

namespace Unmarked

theorem leaf (hleaf : n.isLeaf = true) (hkind : n.kind ≠ .anchor) : Unmarked n := by
  intro id hmem
  rw [inside_of_isLeaf hleaf] at hmem
  exact hkind (List.mem_singleton.mp hmem ▸ rfl)

/-- No anchor stands in a container if none stands in what it holds. -/
theorem of_insideAll (hkind : n.kind ≠ .anchor) (hinside : n.inside = n :: insideAll ns)
    (h : ∀ m ∈ ns, Unmarked m) : Unmarked n := by
  intro id hmem
  rw [hinside] at hmem
  rcases List.mem_cons.mp hmem with rfl | hmem
  · exact hkind rfl
  · obtain ⟨m, hm, hmem⟩ := mem_insideAll.mp hmem
    exact h m hm id hmem

theorem paragraph (h : ∀ m ∈ ns, Unmarked m) : Unmarked (.paragraph ns) := of_insideAll nofun rfl h

theorem of_paragraph (h : Unmarked (.paragraph ns)) : ∀ m ∈ ns, Unmarked m := fun m hm id hmem =>
  h id (List.mem_cons_of_mem _ (mem_insideAll.mpr ⟨m, hm, hmem⟩))

theorem list (h : ∀ m ∈ ns, Unmarked m) : Unmarked (.list ns) := of_insideAll nofun rfl h

theorem noteBox (h : ∀ m ∈ ns, Unmarked m) : Unmarked (.noteBox ns) := of_insideAll nofun rfl h

theorem emphasis (bold italic : Bool) (h : ∀ m ∈ ns, Unmarked m) :
    Unmarked (.emphasis ns bold italic) :=
  of_insideAll nofun rfl h

theorem table {header : List (List Node)} {rows : List (List (List Node))}
    (h : ∀ row ∈ header :: rows, ∀ cell ∈ row, ∀ m ∈ cell, Unmarked m) :
    Unmarked (.table header rows) := by
  intro id hmem
  rw [inside] at hmem
  rcases List.mem_cons.mp hmem with heq | hmem
  · cases heq
  · rcases List.mem_append.mp hmem with hmem | hmem
    · obtain ⟨cell, hcell, m, hm, hmem⟩ := mem_insideCells.mp hmem
      exact h header (List.mem_cons_self ..) cell hcell m hm id hmem
    · obtain ⟨row, hrow, cell, hcell, m, hm, hmem⟩ := mem_insideRows.mp hmem
      exact h row (List.mem_cons_of_mem _ hrow) cell hcell m hm id hmem

end Unmarked

/-- Nodes that all are without anchors. -/
abbrev Anchorless (ns : List Node) : Prop := ∀ n ∈ ns, Unmarked n

/-- All anchors inside some nodes. -/
def anchors (ns : List Node) : List Text :=
  (insideAll ns).filterMap fun n =>
    match n with
    | .anchor id => some id
    | _ => none

theorem anchors_append (ns ns' : List Node) : anchors (ns ++ ns') = anchors ns ++ anchors ns' := by
  rw [anchors, insideAll_append, List.filterMap_append, anchors, anchors]

theorem anchors_flatMap {α : Type} (f : α → List Node) (l : List α) :
    anchors (l.flatMap f) = l.flatMap fun a => anchors (f a) := by
  induction l with
  | nil => rfl
  | cons a l ih => rw [List.flatMap_cons, List.flatMap_cons, anchors_append, ih]

theorem anchors_of_anchorless (h : Anchorless ns) : anchors ns = [] := by
  refine List.filterMap_eq_nil_iff.mpr fun m hm => ?_
  obtain ⟨n, hn, hm⟩ := mem_insideAll.mp hm
  cases m with
  | anchor id => exact absurd hm (h n hn id)
  | _ => rfl

/-- The anchors among some nodes, each with the title of the heading that follows directly. -/
def marks : List Node → List (Text × Option Text)
  | [] => []
  | .anchor id :: .heading title _ :: ns => (id, some title) :: marks ns
  | .anchor id :: ns => (id, none) :: marks ns
  | _ :: ns => marks ns

theorem marks_cons_of_ne (h : n.kind ≠ .anchor) : marks (n :: ns) = marks ns := by
  cases n with
  | anchor id => exact absurd rfl h
  | _ => rfl

theorem Unmarked.kind_ne (h : Unmarked n) : n.kind ≠ .anchor := by
  intro hkind
  cases n with
  | anchor id => exact h id (List.mem_singleton_self _)
  | _ => cases hkind

/-- Nodes without anchors are passed over. -/
theorem marks_append (h : Anchorless ns) : marks (ns ++ ns') = marks ns' := by
  induction ns with
  | nil => rfl
  | cons n ns ih =>
    obtain ⟨hn, hns⟩ := List.forall_mem_cons.mp h
    rw [List.cons_append, marks_cons_of_ne hn.kind_ne, ih hns]

/-- An anchor with its heading in front of nodes without anchors is read off first. -/
theorem marks_block {id title : Text} {level : HeadingLevel} (h : Anchorless ns) :
    marks (.anchor id :: .heading title level :: ns ++ ns') = (id, some title) :: marks ns' :=
  congrArg _ (marks_append h)

theorem anchors_block {id title : Text} {level : HeadingLevel} (h : Anchorless ns) :
    anchors (.anchor id :: .heading title level :: ns) = [id] := by
  show id :: anchors ns = [id]
  rw [anchors_of_anchorless h]

end ApiReference.Doc
