import ApiReference.Doc.Grammar
import ApiReference.Proofs.Diagnostics.Outcome

/-!
# Sound trees

A tree is sound when every container in it holds only what the standard grammar
allows there, and every text, link, heading or anchor in it passes a further test.
Rows and cells occur in tables alone.  The checker accepts every sound tree and no
others (`Sound.validate_eq`, `Sound.of_validate`), and wherever in the tree a node
stands, it is sound as well (`Sound.of_mem_inside`).
-/

namespace ApiReference.Doc

variable {leaf leaf' : Node → Prop} {n m : Node} {ns ns' : List Node} {parent : Kind}
variable {cells : List (List Node)} {rows : List (List (List Node))}

namespace Node

/-- Nodes that have no nodes inside them. -/
def isLeaf : Node → Bool
  | plainText _ | escapedText _ _ | codeSpan _ | fencedCode _ _ | linkTag _ _ _ | softBreak
  | heading _ _ | anchor _ => true
  | _ => false

mutual

/-- All nodes of a tree, outer ones first. -/
def inside : Node → List Node
  | paragraph ns => paragraph ns :: insideAll ns
  | body ns => body ns :: insideAll ns
  | list ns => list ns :: insideAll ns
  | emphasis ns bold italic => emphasis ns bold italic :: insideAll ns
  | noteBox ns => noteBox ns :: insideAll ns
  | tableCell ns => tableCell ns :: insideAll ns
  | tableRow cells => tableRow cells :: insideCells cells
  | table header rows => table header rows :: (insideCells header ++ insideRows rows)
  | node => [node]

def insideAll : List Node → List Node
  | [] => []
  | n :: ns => inside n ++ insideAll ns

def insideCells : List (List Node) → List Node
  | [] => []
  | c :: cs => insideAll c ++ insideCells cs

def insideRows : List (List (List Node)) → List Node
  | [] => []
  | r :: rs => insideCells r ++ insideRows rs

end

theorem inside_of_isLeaf (h : n.isLeaf = true) : n.inside = [n] := by
  cases n with
  | paragraph _ | body _ | list _ | emphasis _ _ _ | noteBox _ | tableCell _ | tableRow _
  | table _ _ => cases h
  | _ => rfl

theorem mem_inside_self (n : Node) : n ∈ n.inside := by
  cases n <;> exact .head _

theorem mem_insideAll : m ∈ insideAll ns ↔ ∃ n ∈ ns, m ∈ inside n := by
  induction ns with
  | nil => simp [insideAll]
  | cons n ns ih => simp [insideAll, ih]

theorem insideAll_append (ns ns' : List Node) :
    insideAll (ns ++ ns') = insideAll ns ++ insideAll ns' := by
  induction ns with
  | nil => rfl
  | cons n ns ih => rw [List.cons_append, insideAll, ih, insideAll, List.append_assoc]

theorem mem_insideCells : m ∈ insideCells cells ↔ ∃ c ∈ cells, ∃ n ∈ c, m ∈ inside n := by
  induction cells with
  | nil => simp [insideCells]
  | cons c cs ih => simp [insideCells, ih, mem_insideAll]

theorem mem_insideRows :
    m ∈ insideRows rows ↔ ∃ r ∈ rows, ∃ c ∈ r, ∃ n ∈ c, m ∈ inside n := by
  induction rows with
  | nil => simp [insideRows]
  | cons r rs ih => simp [insideRows, ih, mem_insideCells]

end Node

open Node Grammar

/-- A tree whose containers keep to the standard grammar and whose other nodes pass a test. -/
inductive Sound (leaf : Node → Prop) : Node → Prop
  | leaf {n : Node} : n.isLeaf = true → leaf n → Sound leaf n
  | paragraph {ns : List Node} : (∀ n ∈ ns, standard.allows .paragraph n.kind = true) →
      (∀ n ∈ ns, Sound leaf n) → Sound leaf (.paragraph ns)
  | body {ns : List Node} : (∀ n ∈ ns, standard.allows .body n.kind = true) →
      (∀ n ∈ ns, Sound leaf n) → Sound leaf (.body ns)
  | list {ns : List Node} : (∀ n ∈ ns, standard.allows .list n.kind = true) →
      (∀ n ∈ ns, Sound leaf n) → Sound leaf (.list ns)
  | emphasis {ns : List Node} {bold italic : Bool} :
      (∀ n ∈ ns, standard.allows .emphasis n.kind = true) →
      (∀ n ∈ ns, Sound leaf n) → Sound leaf (.emphasis ns bold italic)
  | noteBox {ns : List Node} : (∀ n ∈ ns, standard.allows .body n.kind = true) →
      (∀ n ∈ ns, Sound leaf n) → Sound leaf (.noteBox ns)
  | table {header : List (List Node)} {rows : List (List (List Node))} :
      (∀ row ∈ header :: rows, ∀ c ∈ row, ∀ n ∈ c, standard.allows .body n.kind = true) →
      (∀ row ∈ header :: rows, ∀ c ∈ row, ∀ n ∈ c, Sound leaf n) →
      Sound leaf (.table header rows)

/-- Sound nodes that may stand in a container. -/
def Fit (leaf : Node → Prop) (parent : Kind) (ns : List Node) : Prop :=
  ∀ n ∈ ns, standard.allows parent n.kind = true ∧ Sound leaf n

namespace Fit

@[simp] theorem nil : Fit leaf parent [] := List.forall_mem_nil _

@[simp] theorem cons_iff : Fit leaf parent (n :: ns) ↔
    (standard.allows parent n.kind = true ∧ Sound leaf n) ∧ Fit leaf parent ns :=
  List.forall_mem_cons

@[simp] theorem append_iff :
    Fit leaf parent (ns ++ ns') ↔ Fit leaf parent ns ∧ Fit leaf parent ns' :=
  List.forall_mem_append

theorem append (h : Fit leaf parent ns) (h' : Fit leaf parent ns') : Fit leaf parent (ns ++ ns') :=
  append_iff.mpr ⟨h, h'⟩

theorem allowed (h : Fit leaf parent ns) : ∀ n ∈ ns, standard.allows parent n.kind = true :=
  fun n hn => (h n hn).1

theorem sound (h : Fit leaf parent ns) : ∀ n ∈ ns, Sound leaf n := fun n hn => (h n hn).2

theorem singleton_iff : Fit leaf parent [n] ↔
    standard.allows parent n.kind = true ∧ Sound leaf n := by
  rw [cons_iff, and_iff_left nil]

theorem of_leaf (hallowed : standard.allows parent n.kind = true) (hl : n.isLeaf = true)
    (hleaf : leaf n) : Fit leaf parent [n] :=
  singleton_iff.mpr ⟨hallowed, .leaf hl hleaf⟩

end Fit

namespace Sound

@[simp] theorem paragraph_iff : Sound leaf (.paragraph ns) ↔ Fit leaf .paragraph ns := by
  constructor
  · rintro (⟨hleaf, _⟩ | ⟨ha, hs⟩)
    · exact absurd hleaf Bool.false_ne_true
    · exact fun n hn => ⟨ha n hn, hs n hn⟩
  · exact fun h => .paragraph h.allowed h.sound

@[simp] theorem body_iff : Sound leaf (.body ns) ↔ Fit leaf .body ns := by
  constructor
  · intro h
    cases h with
    | leaf hleaf _ => exact absurd hleaf Bool.false_ne_true
    | body ha hs => exact fun n hn => ⟨ha n hn, hs n hn⟩
  · exact fun h => .body h.allowed h.sound

@[simp] theorem list_iff : Sound leaf (.list ns) ↔ Fit leaf .list ns := by
  constructor
  · intro h
    cases h with
    | leaf hleaf _ => exact absurd hleaf Bool.false_ne_true
    | list ha hs => exact fun n hn => ⟨ha n hn, hs n hn⟩
  · exact fun h => .list h.allowed h.sound

@[simp] theorem emphasis_iff {bold italic : Bool} :
    Sound leaf (.emphasis ns bold italic) ↔ Fit leaf .emphasis ns := by
  constructor
  · intro h
    cases h with
    | leaf hleaf _ => exact absurd hleaf Bool.false_ne_true
    | emphasis ha hs => exact fun n hn => ⟨ha n hn, hs n hn⟩
  · exact fun h => .emphasis h.allowed h.sound

@[simp] theorem noteBox_iff : Sound leaf (.noteBox ns) ↔ Fit leaf .body ns := by
  constructor
  · intro h
    cases h with
    | leaf hleaf _ => exact absurd hleaf Bool.false_ne_true
    | noteBox ha hs => exact fun n hn => ⟨ha n hn, hs n hn⟩
  · exact fun h => .noteBox h.allowed h.sound

/-- Every cell of a table holds what a section may hold. -/
@[simp] theorem table_iff {header : List (List Node)} : Sound leaf (.table header rows) ↔
    ∀ row ∈ header :: rows, ∀ c ∈ row, Fit leaf .body c := by
  constructor
  · intro h
    cases h with
    | leaf hleaf _ => exact absurd hleaf Bool.false_ne_true
    | table ha hs => exact fun row hr c hc n hn => ⟨ha row hr c hc n hn, hs row hr c hc n hn⟩
  · exact fun h => .table (fun row hr c hc => (h row hr c hc).allowed)
      fun row hr c hc => (h row hr c hc).sound

/-- What passes a test passes a weaker one. -/
theorem mono (h : Sound leaf n) (hleaf : ∀ n, leaf n → leaf' n) : Sound leaf' n := by
  induction h with
  | leaf hn hl => exact .leaf hn (hleaf _ hl)
  | paragraph ha _ ih => exact .paragraph ha ih
  | body ha _ ih => exact .body ha ih
  | list ha _ ih => exact .list ha ih
  | emphasis ha _ ih => exact .emphasis ha ih
  | noteBox ha _ ih => exact .noteBox ha ih
  | table ha _ ih => exact .table ha ih

/-- Every node of a sound tree is sound. -/
theorem of_mem_inside (h : Sound leaf n) (hm : m ∈ n.inside) : Sound leaf m := by
  have hbelow : ∀ {ns : List Node}, (∀ n ∈ ns, m ∈ n.inside → Sound leaf m) → m ∈ insideAll ns →
      Sound leaf m := fun ih hm => by
    obtain ⟨n, hn, hmn⟩ := mem_insideAll.mp hm
    exact ih n hn hmn
  induction h with
  | @leaf n hn hl =>
    rw [inside_of_isLeaf hn] at hm
    exact List.mem_singleton.mp hm ▸ .leaf hn hl
  | paragraph ha hs ih => exact (List.mem_cons.mp hm).elim (· ▸ .paragraph ha hs) (hbelow ih)
  | body ha hs ih => exact (List.mem_cons.mp hm).elim (· ▸ .body ha hs) (hbelow ih)
  | list ha hs ih => exact (List.mem_cons.mp hm).elim (· ▸ .list ha hs) (hbelow ih)
  | emphasis ha hs ih => exact (List.mem_cons.mp hm).elim (· ▸ .emphasis ha hs) (hbelow ih)
  | noteBox ha hs ih => exact (List.mem_cons.mp hm).elim (· ▸ .noteBox ha hs) (hbelow ih)
  | @table header rows ha hs ih =>
    rcases List.mem_cons.mp hm with rfl | hm
    · exact .table ha hs
    · rcases List.mem_append.mp hm with hm | hm
      · obtain ⟨c, hc, n, hn, hmn⟩ := mem_insideCells.mp hm
        exact ih header (List.mem_cons_self ..) c hc n hn hmn
      · obtain ⟨r, hr, c, hc, n, hn, hmn⟩ := mem_insideRows.mp hm
        exact ih r (List.mem_cons_of_mem _ hr) c hc n hn hmn

/-- Wherever in a sound tree a text, link, heading or anchor stands, it passes the test. -/
theorem leaf_of_mem_inside (h : Sound leaf n) (hm : m ∈ n.inside) (hleaf : m.isLeaf = true) :
    leaf m := by
  cases h.of_mem_inside hm with
  | leaf _ hl => exact hl
  | _ => cases hleaf

/-! ## The checker -/

theorem firstForbidden?_eq_none {g : Grammar} (h : ∀ n ∈ ns, g.allows parent n.kind = true) :
    g.firstForbidden? parent ns = none := by
  rw [firstForbidden?, Option.map_eq_none_iff, List.find?_eq_none]
  intro n hn
  rw [h n hn]
  decide

theorem checkInside_eq {g : Grammar} (h : ∀ n ∈ ns, g.allows parent n.kind = true) :
    g.checkInside parent ns (.ok ()) = .ok () := by
  rw [checkInside, firstForbidden?_eq_none h]
  split <;> rfl

theorem validate_of_isLeaf (h : n.isLeaf = true) : standard.validate n = .ok () := by
  cases n with
  | paragraph _ | body _ | list _ | emphasis _ _ _ | noteBox _ | tableCell _ | tableRow _
  | table _ _ => cases h
  | _ => rfl

theorem validateAll_eq {g : Grammar} (h : ∀ n ∈ ns, g.validate n = .ok ()) :
    g.validateAll ns = .ok () := by
  induction ns with
  | nil => rfl
  | cons n ns ih =>
    obtain ⟨hn, hns⟩ := List.forall_mem_cons.mp h
    rw [validateAll, hn, ih hns]
    rfl

theorem validateCells_eq (ha : ∀ c ∈ cells, ∀ n ∈ c, standard.allows .body n.kind = true)
    (hv : ∀ c ∈ cells, ∀ n ∈ c, standard.validate n = .ok ()) :
    standard.validateCells cells = .ok () := by
  induction cells with
  | nil => rfl
  | cons c cs ih =>
    obtain ⟨hac, hacs⟩ := List.forall_mem_cons.mp ha
    obtain ⟨hvc, hvcs⟩ := List.forall_mem_cons.mp hv
    rw [validateCells, validateAll_eq hvc, checkInside_eq hac, ih hacs hvcs]
    rfl

theorem validateRows_eq
    (ha : ∀ r ∈ rows, ∀ c ∈ r, ∀ n ∈ c, standard.allows .body n.kind = true)
    (hv : ∀ r ∈ rows, ∀ c ∈ r, ∀ n ∈ c, standard.validate n = .ok ()) :
    standard.validateRows rows = .ok () := by
  induction rows with
  | nil => rfl
  | cons r rs ih =>
    obtain ⟨har, hars⟩ := List.forall_mem_cons.mp ha
    obtain ⟨hvr, hvrs⟩ := List.forall_mem_cons.mp hv
    rw [validateRows, validateCells_eq har hvr, ih hars hvrs]
    rfl

/-- The checker accepts every sound tree. -/
theorem validate_eq (h : Sound leaf n) : standard.validate n = .ok () := by
  induction h with
  | @leaf n hn _ => exact validate_of_isLeaf hn
  | paragraph ha _ ih => rw [validate, validateAll_eq ih, checkInside_eq ha]
  | body ha _ ih => rw [validate, validateAll_eq ih, checkInside_eq ha]
  | list ha _ ih => rw [validate, validateAll_eq ih, checkInside_eq ha]
  | emphasis ha _ ih => rw [validate, validateAll_eq ih, checkInside_eq ha]
  | noteBox ha _ ih => rw [validate, validateAll_eq ih, checkInside_eq ha]; rfl
  | table ha _ ih =>
    obtain ⟨haheader, harows⟩ := List.forall_mem_cons.mp ha
    obtain ⟨hheader, hrows⟩ := List.forall_mem_cons.mp ih
    rw [validate, validateCells_eq haheader hheader, validateRows_eq harows hrows]
    rfl

theorem allowed_of_checkInside {g : Grammar} (parent : Kind) {inner : Except Fault Unit}
    (hentry : g.hasEntry parent = true) (h : g.checkInside parent ns inner = .ok ()) :
    (∀ n ∈ ns, g.allows parent n.kind = true) ∧ inner = .ok () := by
  rw [checkInside, if_pos hentry] at h
  split at h
  · cases h
  · rename_i hnone
    rw [firstForbidden?, Option.map_eq_none_iff, List.find?_eq_none] at hnone
    exact ⟨fun n hn => by simpa using hnone n hn, h⟩

/-- Rows and cells may stand in no container of nodes. -/
theorem kind_of_allows {kind : Kind} (h : standard.allows parent kind = true) :
    kind ≠ .tableRow ∧ kind ≠ .tableCell := by
  have hrow : standard.allows parent .tableRow = false := by cases parent <;> rfl
  have hcell : standard.allows parent .tableCell = false := by cases parent <;> rfl
  constructor
  · rintro rfl
    cases hrow.symm.trans h
  · rintro rfl
    cases hcell.symm.trans h

mutual

/-- A tree that the checker accepts is sound, unless it is a row or a cell. -/
theorem of_validate : (n : Node) → standard.validate n = .ok () →
    n.kind ≠ .tableRow ∧ n.kind ≠ .tableCell → (∀ m ∈ n.inside, m.isLeaf = true → leaf m) →
    Sound leaf n
  | .paragraph ns, h, _, hleaf => by
    obtain ⟨ha, hv⟩ := allowed_of_checkInside .paragraph rfl h
    exact paragraph_iff.mpr (of_validateAll ns ha hv fun m hm => hleaf m (.tail _ hm))
  | .body ns, h, _, hleaf => by
    obtain ⟨ha, hv⟩ := allowed_of_checkInside .body rfl h
    exact body_iff.mpr (of_validateAll ns ha hv fun m hm => hleaf m (.tail _ hm))
  | .list ns, h, _, hleaf => by
    obtain ⟨ha, hv⟩ := allowed_of_checkInside .list rfl h
    exact list_iff.mpr (of_validateAll ns ha hv fun m hm => hleaf m (.tail _ hm))
  | .emphasis ns _ _, h, _, hleaf => by
    obtain ⟨ha, hv⟩ := allowed_of_checkInside .emphasis rfl h
    exact emphasis_iff.mpr (of_validateAll ns ha hv fun m hm => hleaf m (.tail _ hm))
  | .noteBox ns, h, _, hleaf => by
    obtain ⟨ha, hv⟩ := allowed_of_checkInside (g := standard) .body rfl h
    exact noteBox_iff.mpr (of_validateAll ns ha hv fun m hm => hleaf m (.tail _ hm))
  | .table header rows, h, _, hleaf => by
    obtain ⟨_, hheader, hrows⟩ := bind_eq_ok.mp (show (standard.validateCells header >>= fun _ =>
      standard.validateRows rows) = .ok () from h)
    refine table_iff.mpr (List.forall_mem_cons.mpr ⟨?_, ?_⟩)
    · exact of_validateCells header hheader fun m hm =>
        hleaf m (.tail _ (List.mem_append_left _ hm))
    · exact of_validateRows rows hrows fun m hm => hleaf m (.tail _ (List.mem_append_right _ hm))
  | .tableRow _, _, hkind, _ => absurd rfl hkind.1
  | .tableCell _, _, hkind, _ => absurd rfl hkind.2
  | .plainText _, _, _, hleaf => .leaf rfl (hleaf _ (.head _) rfl)
  | .escapedText _ _, _, _, hleaf => .leaf rfl (hleaf _ (.head _) rfl)
  | .codeSpan _, _, _, hleaf => .leaf rfl (hleaf _ (.head _) rfl)
  | .fencedCode _ _, _, _, hleaf => .leaf rfl (hleaf _ (.head _) rfl)
  | .linkTag _ _ _, _, _, hleaf => .leaf rfl (hleaf _ (.head _) rfl)
  | .softBreak, _, _, hleaf => .leaf rfl (hleaf _ (.head _) rfl)
  | .heading _ _, _, _, hleaf => .leaf rfl (hleaf _ (.head _) rfl)
  | .anchor _, _, _, hleaf => .leaf rfl (hleaf _ (.head _) rfl)

theorem of_validateAll : {parent : Kind} → (ns : List Node) →
    (∀ n ∈ ns, standard.allows parent n.kind = true) → standard.validateAll ns = .ok () →
    (∀ m ∈ insideAll ns, m.isLeaf = true → leaf m) → Fit leaf parent ns
  | _, [], _, _, _ => Fit.nil
  | _, n :: ns, ha, h, hleaf => by
    obtain ⟨han, hans⟩ := List.forall_mem_cons.mp ha
    obtain ⟨_, hn, hns⟩ := bind_eq_ok.mp h
    refine Fit.cons_iff.mpr ⟨⟨han, ?_⟩, ?_⟩
    · exact of_validate n hn (kind_of_allows han) fun m hm => hleaf m (List.mem_append_left _ hm)
    · exact of_validateAll ns hans hns fun m hm => hleaf m (List.mem_append_right _ hm)

theorem of_validateCells : (cells : List (List Node)) → standard.validateCells cells = .ok () →
    (∀ m ∈ insideCells cells, m.isLeaf = true → leaf m) → ∀ c ∈ cells, Fit leaf .body c
  | [], _, _ => List.forall_mem_nil _
  | c :: cs, h, hleaf => by
    obtain ⟨_, hc, hcs⟩ := bind_eq_ok.mp h
    obtain ⟨ha, hv⟩ := allowed_of_checkInside (g := standard) .body rfl hc
    refine List.forall_mem_cons.mpr ⟨?_, ?_⟩
    · exact of_validateAll c ha hv fun m hm => hleaf m (List.mem_append_left _ hm)
    · exact of_validateCells cs hcs fun m hm => hleaf m (List.mem_append_right _ hm)

theorem of_validateRows : (rows : List (List (List Node))) →
    standard.validateRows rows = .ok () → (∀ m ∈ insideRows rows, m.isLeaf = true → leaf m) →
    ∀ r ∈ rows, ∀ c ∈ r, Fit leaf .body c
  | [], _, _ => List.forall_mem_nil _
  | r :: rs, h, hleaf => by
    obtain ⟨_, hr, hrs⟩ := bind_eq_ok.mp h
    refine List.forall_mem_cons.mpr ⟨?_, ?_⟩
    · exact of_validateCells r hr fun m hm => hleaf m (List.mem_append_left _ hm)
    · exact of_validateRows rs hrs fun m hm => hleaf m (List.mem_append_right _ hm)

end

end Sound

theorem Fit.mono (h : Fit leaf parent ns) (hleaf : ∀ n, leaf n → leaf' n) :
    Fit leaf' parent ns :=
  fun n hn => ⟨(h n hn).1, (h n hn).2.mono hleaf⟩

/-! ## Adding nodes -/

/-- Nodes that may stand in a container are all added to it. -/
theorem extend_eq {g : Grammar} (h : ∀ n ∈ ns', g.allows parent n.kind = true) :
    g.extend parent ns ns' = ⟨ns ++ ns', none⟩ := by
  induction ns' generalizing ns with
  | nil => rw [extend, List.append_nil]
  | cons n ns' ih =>
    obtain ⟨hn, hns⟩ := List.forall_mem_cons.mp h
    rw [extend, if_pos hn, ih hns, List.append_assoc]
    rfl

/-- Adding nodes changes none of them. -/
theorem nodes_extend {g : Grammar} (h : (g.extend parent ns ns').fault? = none) :
    (g.extend parent ns ns').nodes = ns ++ ns' := by
  induction ns' generalizing ns with
  | nil => exact (List.append_nil ns).symm
  | cons n ns' ih =>
    unfold Grammar.extend at h ⊢
    split
    · rename_i hallowed
      rw [if_pos hallowed] at h
      rw [ih h, List.append_assoc, List.singleton_append]
    · rename_i hforbidden
      rw [if_neg hforbidden] at h
      cases h

theorem Edit.result_eq_ok {edit : Edit} (h : edit.result = .ok ns) :
    edit.fault? = none ∧ edit.nodes = ns := by
  unfold Edit.result at h
  split at h
  · rename_i hnone
    exact ⟨hnone, Except.ok.inj h⟩
  · cases h

/-- Nodes that are permitted stay as they are, whatever the grammar is. -/
theorem eq_of_permit {g : Grammar} (h : g.permit parent ns = .ok ns') : ns' = ns := by
  obtain ⟨hnone, rfl⟩ := Edit.result_eq_ok h
  exact nodes_extend hnone

/-- A node is added to the paragraph at the end, or to a new one. -/
theorem of_appendInParagraph {g : Grammar}
    (h : (g.appendInParagraph parent ns n).result = .ok ns') :
    (∃ front inner, ns = front ++ [.paragraph inner] ∧
      ns' = front ++ [.paragraph (inner ++ [n])]) ∨
    ((∀ inner, ns.getLast? ≠ some (.paragraph inner)) ∧ ns' = ns ++ [.paragraph [n]]) := by
  unfold Grammar.appendInParagraph at h
  split at h
  · rename_i inner hlast
    obtain ⟨front, rfl⟩ := List.getLast?_eq_some_iff.mp hlast
    obtain ⟨hnone, rfl⟩ := Edit.result_eq_ok h
    left
    refine ⟨front, inner, rfl, ?_⟩
    rw [List.dropLast_concat]
    exact congrArg (fun ns => front ++ [Node.paragraph ns]) (nodes_extend hnone)
  · rename_i hlast
    dsimp only at h
    split at h
    · rename_i fault hfault
      obtain ⟨hnone, -⟩ := Edit.result_eq_ok h
      cases hfault.symm.trans hnone
    · obtain ⟨hnone, rfl⟩ := Edit.result_eq_ok h
      right
      refine ⟨hlast, ?_⟩
      exact congrArg (fun ns' => ns ++ [Node.paragraph ns']) (nodes_extend hnone)

theorem Fit.permit (h : Fit leaf parent ns) : standard.permit parent ns = .ok ns := by
  rw [Grammar.permit, extend_eq h.allowed]
  rfl

/-- A section stays sound when a node is added to the paragraph at its end. -/
theorem Fit.appendInParagraph (h : Fit leaf .body ns)
    (ha : standard.allows .paragraph n.kind = true) (hn : Sound leaf n) :
    Yields (standard.appendInParagraph .body ns n).result (Fit leaf .body) := by
  have hone : ∀ m ∈ [n], standard.allows .paragraph m.kind = true := by
    simpa using ha
  have hnode : Fit leaf .paragraph [n] := Fit.singleton_iff.mpr ⟨ha, hn⟩
  unfold Grammar.appendInParagraph
  split
  · rename_i inner hlast
    obtain ⟨front, rfl⟩ := List.getLast?_eq_some_iff.mp hlast
    obtain ⟨hfront, hend⟩ := Fit.append_iff.mp h
    have hinner := Sound.paragraph_iff.mp (Fit.singleton_iff.mp hend).2
    refine Yields.of_eq (a := front ++ [.paragraph (inner ++ [n])]) ?_ ?_
    · rw [Grammar.append, extend_eq hone, List.dropLast_concat]
      rfl
    · exact hfront.append
        (Fit.singleton_iff.mpr ⟨rfl, Sound.paragraph_iff.mpr (hinner.append hnode)⟩)
  · refine Yields.of_eq (a := ns ++ [.paragraph [n]]) ?_ ?_
    · simp only [Grammar.append, extend_eq hone]
      rfl
    · exact h.append (Fit.singleton_iff.mpr ⟨rfl, Sound.paragraph_iff.mpr hnode⟩)

end ApiReference.Doc
