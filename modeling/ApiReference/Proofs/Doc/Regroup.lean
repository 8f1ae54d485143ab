import Mathlib.Data.List.Chain
import ApiReference.Proofs.Doc.Trim

/-!
# Trimming as a rewriting of items

The nodes that trimming makes are those of its items, grouped anew: one text for every
longest run of characters (`regroup`).  Nodes are determined by their items as soon as
they are grouped like that (`regroup_itemsOf`), and those of a trimmed paragraph are
(`grouped_trimNodes`).  What trimming does to a paragraph is therefore what collapsing
and stripping do to its items (`trimNodes_flat`).
-/

namespace ApiReference.Doc

open Text

variable {t : Trim} {n : Node} {ns : List Node}

/-! ## Runs of characters -/

namespace Item

def char? : Item → Option Char
  | char c => some c
  | node _ => none

def isChar (i : Item) : Bool := i.char?.isSome

end Item

/-- The nodes of a row of items, with one text for every longest run of characters. -/
def regroup : List Item → List Node
  | [] => []
  | .node n :: items => n :: regroup items
  | .char c :: items =>
    .plainText (c :: (items.takeWhile Item.isChar).filterMap Item.char?) ::
      regroup (items.dropWhile Item.isChar)
termination_by items => items.length
decreasing_by
  · exact Nat.lt_succ_self _
  · exact Nat.lt_succ_of_le (List.dropWhile_sublist _).length_le

/-- No two texts stand in a row. -/
def TextsApart (ns : List Node) : Prop :=
  ns.IsChain fun m n => ¬ (m.kind = .plainText ∧ n.kind = .plainText)

theorem textsApart_cons : TextsApart (n :: ns) ↔
    (n.kind = .plainText → ∀ m ∈ ns.head?, m.kind ≠ .plainText) ∧ TextsApart ns := by
  refine List.isChain_cons.trans (and_congr_left fun _ => ?_)
  exact ⟨fun h hn m hm hm' => h m hm ⟨hn, hm'⟩, fun h m hm hboth => h hboth.1 m hm hboth.2⟩

/-- Nodes without soft breaks and empty texts, and with no two texts in a row. -/
structure Grouped (ns : List Node) : Prop where
  noBreak : .softBreak ∉ ns
  noEmpty : .plainText [] ∉ ns
  apart : TextsApart ns

namespace Grouped

theorem nil : Grouped [] := ⟨List.not_mem_nil, List.not_mem_nil, .nil⟩

theorem cons (hbreak : n ≠ .softBreak) (hempty : n ≠ .plainText [])
    (hapart : n.kind = .plainText → ∀ m ∈ ns.head?, m.kind ≠ .plainText) (h : Grouped ns) :
    Grouped (n :: ns) where
  noBreak := by simp [hbreak.symm, h.noBreak]
  noEmpty := by simp [hempty.symm, h.noEmpty]
  apart := textsApart_cons.mpr ⟨hapart, h.apart⟩

theorem tail (h : Grouped (n :: ns)) : Grouped ns where
  noBreak := mt (List.mem_cons_of_mem n) h.noBreak
  noEmpty := mt (List.mem_cons_of_mem n) h.noEmpty
  apart := (textsApart_cons.mp h.apart).2

/-- The first item behind a text is no character. -/
theorem head_items {s : Text} (h : Grouped (.plainText s :: ns)) :
    ∀ i ∈ (itemsOf ns).head?, i.isChar = false := by
  cases ns with
  | nil => exact nofun
  | cons m ns =>
    have hplain : ∀ u, m = .plainText u → False := fun u hu =>
      (textsApart_cons.mp h.apart).1 rfl m rfl (hu ▸ rfl)
    have hsoft : m = .softBreak → False := fun hm =>
      h.tail.noBreak (hm ▸ List.mem_cons_self ..)
    rw [itemsOf_cons, m.items_of_not_text hplain hsoft]
    rintro i ⟨⟩
    rfl

end Grouped

theorem filterMap_char (s : Text) : (s.map Item.char).filterMap Item.char? = s := by
  rw [List.filterMap_map]
  exact List.filterMap_some

/-- Grouped nodes are those that their items make. -/
theorem regroup_itemsOf (h : Grouped ns) : regroup (itemsOf ns) = ns := by
  induction ns with
  | nil => exact regroup.eq_1
  | cons n ns ih =>
    rw [itemsOf_cons]
    by_cases hplain : ∃ s, n = .plainText s
    · obtain ⟨s, rfl⟩ := hplain
      cases s with
      | nil => exact absurd (List.mem_cons_self ..) h.noEmpty
      | cons c s =>
        have hchars : (s.map Item.char).all Item.isChar = true := by simp [Item.isChar, Item.char?]
        rw [Node.items, List.map_cons, List.cons_append, regroup,
          takeWhile_run hchars h.head_items, dropWhile_run hchars h.head_items, filterMap_char,
          ih h.tail]
    · have hsoft : n ≠ .softBreak := fun hn => h.noBreak (hn ▸ List.mem_cons_self ..)
      rw [n.items_of_not_text (fun s hs => hplain ⟨s, hs⟩) hsoft, List.singleton_append, regroup,
        ih h.tail]

/-! ## The nodes of a trimmed paragraph -/

namespace Trim

/-- No piece of the collected text is empty. -/
def Solid (t : Trim) : Prop := [] ∉ t.chunks

theorem Solid.settle (h : t.Solid) : t.settle.Solid := by
  unfold Trim.settle
  split
  · simpa [Solid] using h
  · exact h

theorem Solid.blank (h : t.Solid) (found : Bool) : (t.blank found).Solid := by
  unfold Trim.blank
  split
  · exact h
  · exact h

theorem Solid.visible (h : t.Solid) (piece : Text) : (t.visible piece).Solid := by
  unfold Trim.visible
  split
  · exact h
  · rename_i hpiece
    have hne : piece ≠ [] := fun hnil => hpiece (hnil ▸ rfl)
    simpa [Solid, hne.symm] using h.settle

theorem Solid.add (h : t.Solid) (s : Text) : (t.add s).Solid := ((h.blank _).visible _).blank _

/-- What was collected goes in front of a node that is no text. -/
theorem Solid.grouped_flush (h : t.Solid) (hhead : ∀ m ∈ ns.head?, m.kind ≠ .plainText)
    (hns : Grouped ns) : Grouped (t.flush ++ ns) := by
  unfold flush
  split
  · exact hns
  · rename_i hchunks
    refine hns.cons nofun (fun hnil => ?_) fun _ => hhead
    obtain ⟨piece, hpiece⟩ := List.exists_mem_of_ne_nil _ (mt List.isEmpty_iff.mpr hchunks)
    have hflat : t.chunks.reverse.flatten = [] := by injection hnil
    exact h (List.flatten_eq_nil_iff.mp hflat piece (List.mem_reverse.mpr hpiece) ▸ hpiece)

end Trim

theorem grouped_trimFrom (h : t.Solid) (ns : List Node) : Grouped (trimFrom t ns) := by
  -- on the loop: no piece that it has collected is empty, so the text made of them is not
  fun_induction trimFrom t ns with
  | case1 t => exact List.append_nil t.flush ▸ h.grouped_flush (by simp) .nil
  | case2 t s ns ih => exact ih (h.add s)
  | case3 t ns ih => exact ih (h.blank true)
  | case4 t n ns hplain hsoft ih =>
    have hkind : n.kind ≠ .plainText := fun hkind => by
      cases n with
      | plainText s => exact hplain s rfl
      | _ => cases hkind
    have hhead : ∀ m ∈ (n :: trimFrom (.initial) ns).head?, m.kind ≠ .plainText :=
      fun m hm => Option.some.inj hm ▸ hkind
    refine h.settle.grouped_flush hhead ?_
    exact (ih List.not_mem_nil).cons hsoft (fun hn => hplain [] hn) fun hk => absurd hk hkind

theorem grouped_trimNodes (ns : List Node) : Grouped (trimNodes ns) :=
  grouped_trimFrom (t := .initial) List.not_mem_nil ns

theorem trimNodes_eq_regroup (ns : List Node) :
    trimNodes ns = regroup (squeeze Item.isBlank .space (itemsOf ns)) := by
  rw [← itemsOf_trimNodes, regroup_itemsOf (grouped_trimNodes ns)]

/-- Trimming a paragraph collapses the runs of blank items, strips those at the ends, and makes one
text of every run of characters. So nothing visible is lost, doubled or moved, the result is
grouped, and trimming again changes nothing. -/
theorem trimNodes_flat (ns : List Node) :
    trimNodes ns = regroup
      (stripBlanks Item.isBlank (collapseRuns Item.isBlank .space (itemsOf ns))) ∧
    (itemsOf (trimNodes ns)).filter (fun i => !i.isBlank) =
      (itemsOf ns).filter (fun i => !i.isBlank) ∧
    Grouped (trimNodes ns) ∧
    trimNodes (trimNodes ns) = trimNodes ns := by
  have hspace : Item.space.isBlank = true := rfl
  refine ⟨?_, ?_, grouped_trimNodes ns, ?_⟩
  · rw [trimNodes_eq_regroup, squeeze_eq hspace]
  · rw [itemsOf_trimNodes]
    exact filter_squeezeFrom hspace false false (itemsOf ns)
  · rw [trimNodes_eq_regroup, itemsOf_trimNodes, squeeze_squeeze hspace, ← trimNodes_eq_regroup]

end ApiReference.Doc
