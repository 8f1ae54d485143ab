import ApiReference.Proofs.Doc.Sound
import Mathlib.Data.List.TakeWhile
import Mathlib.Logic.Relation

/-!
# Calls on the containers of a tree

A tree is built by calls that add nodes to one of its containers (`Call`).  A call stops
at the first node that the grammar forbids, and what it has added before that stays.  It
keeps the kind of the container and, when the nodes it adds pass the checker, also that
the container passes it (`validate_perform`).  Whether a tree passes depends on what
stands in a container only through the kinds of these nodes and through whether they pass,
and so the whole tree still passes (`Replaced.validate`), also after any number of calls
(`calls_account`).  A node that stands at several places of a tree counts as several
nodes, each with its own calls.
-/

namespace ApiReference.Doc

open Node Grammar

variable {g : Grammar} {n t t' c c' : Node} {ns nodes : List Node} {kind : Kind}
variable {cells : List (List Node)} {rows : List (List (List Node))} {fault : Fault}

/-- The containers: paragraphs, sections, lists and emphasized nodes. -/
theorem container_cases (h : t.nodes? = some ns) : t = .paragraph ns ∨ t = .body ns ∨
    t = .list ns ∨ ∃ bold italic, t = .emphasis ns bold italic := by
  unfold Node.nodes? at h
  split at h
  · exact .inl (congrArg _ (Option.some.inj h))
  · exact .inr (.inl (congrArg _ (Option.some.inj h)))
  · exact .inr (.inr (.inl (congrArg _ (Option.some.inj h))))
  · rename_i inner bold italic
    cases h
    exact .inr (.inr (.inr ⟨bold, italic, rfl⟩))
  · cases h

/-! ## The checker, container by container -/

theorem seq_eq_ok {x y : Except Fault Unit} :
    (x >>= fun _ => y) = .ok () ↔ x = .ok () ∧ y = .ok () := by
  cases x <;> simp

namespace Grammar

theorem checkInside_eq_ok {inner : Except Fault Unit} : g.checkInside kind ns inner = .ok () ↔
    (g.hasEntry kind = true → (∀ n ∈ ns, g.allows kind n.kind = true) ∧ inner = .ok ()) := by
  constructor
  · exact fun h hentry => Sound.allowed_of_checkInside kind hentry h
  · intro h
    by_cases hentry : g.hasEntry kind = true
    · obtain ⟨hallowed, hinner⟩ := h hentry
      rw [hinner, Sound.checkInside_eq hallowed]
    · rw [checkInside, if_neg hentry]

theorem checkClosed_eq_ok {inner : Except Fault Unit} :
    g.checkClosed kind inner = .ok () ↔ g.hasEntry kind = false ∧ inner = .ok () := by
  unfold checkClosed
  by_cases hentry : g.hasEntry kind = true
  · simp [hentry]
  · simp [hentry]

theorem validateAll_eq_ok : g.validateAll ns = .ok () ↔ ∀ n ∈ ns, g.validate n = .ok () := by
  refine ⟨fun h => ?_, Sound.validateAll_eq⟩
  induction ns with
  | nil => exact List.forall_mem_nil _
  | cons n ns ih =>
    obtain ⟨hn, hns⟩ := seq_eq_ok.mp h
    exact List.forall_mem_cons.mpr ⟨hn, ih hns⟩

theorem validateCells_eq_ok :
    g.validateCells cells = .ok () ↔ ∀ c ∈ cells, g.validate (.tableCell c) = .ok () := by
  induction cells with
  | nil => exact iff_of_true rfl (List.forall_mem_nil _)
  | cons c cells ih =>
    rw [List.forall_mem_cons, ← ih]
    exact seq_eq_ok

theorem validateRows_eq_ok :
    g.validateRows rows = .ok () ↔ ∀ r ∈ rows, g.validate (.tableRow r) = .ok () := by
  induction rows with
  | nil => exact iff_of_true rfl (List.forall_mem_nil _)
  | cons r rows ih =>
    rw [List.forall_mem_cons, ← ih]
    exact seq_eq_ok

/-- A container passes if its nodes may stand in it and pass, or if there is no entry for it. -/
theorem validate_container (h : t.nodes? = some ns) : g.validate t = .ok () ↔
    (g.hasEntry t.kind = true →
      (∀ n ∈ ns, g.allows t.kind n.kind = true) ∧ ∀ n ∈ ns, g.validate n = .ok ()) := by
  rw [← validateAll_eq_ok, ← checkInside_eq_ok]
  rcases container_cases h with rfl | rfl | rfl | ⟨bold, italic, rfl⟩ <;> rfl

theorem validate_noteBox : g.validate (.noteBox ns) = .ok () ↔
    g.hasEntry .noteBox = false ∧ g.validate (.body ns) = .ok () := checkClosed_eq_ok

theorem validate_tableCell : g.validate (.tableCell ns) = .ok () ↔
    g.hasEntry .tableCell = false ∧ g.validate (.body ns) = .ok () := checkClosed_eq_ok

theorem validate_tableRow : g.validate (.tableRow cells) = .ok () ↔
    g.hasEntry .tableRow = false ∧ ∀ c ∈ cells, g.validate (.tableCell c) = .ok () := by
  rw [← validateCells_eq_ok]
  exact checkClosed_eq_ok

theorem validate_table : g.validate (.table cells rows) = .ok () ↔
    g.hasEntry .table = false ∧ g.validate (.tableRow cells) = .ok () ∧
      ∀ r ∈ rows, g.validate (.tableRow r) = .ok () := by
  rw [← validateRows_eq_ok, ← seq_eq_ok]
  exact checkClosed_eq_ok

end Grammar

/-! ## Other nodes in a container -/

theorem nodes?_withNodes (h : t.nodes? = some ns) (nodes : List Node) :
    (t.withNodes nodes).nodes? = some nodes := by
  rcases container_cases h with rfl | rfl | rfl | ⟨bold, italic, rfl⟩ <;> rfl

theorem withNodes_withNodes (c : Node) (ns nodes : List Node) :
    (c.withNodes ns).withNodes nodes = c.withNodes nodes := by
  cases c <;> rfl

theorem withNodes_self (h : t.nodes? = some ns) : t.withNodes ns = t := by
  rcases container_cases h with rfl | rfl | rfl | ⟨bold, italic, rfl⟩ <;> rfl

/-- A tree with a node in the place of one of its nodes. -/
inductive Replaced (c c' : Node) : Node → Node → Prop
  | here : Replaced c c' c c'
  | inside {t n n' : Node} {before after : List Node} : t.nodes? = some (before ++ n :: after) →
      Replaced c c' n n' → Replaced c c' t (t.withNodes (before ++ n' :: after))
  | noteBox {ns ns' : List Node} : Replaced c c' (.body ns) (.body ns') →
      Replaced c c' (.noteBox ns) (.noteBox ns')
  | tableCell {ns ns' : List Node} : Replaced c c' (.body ns) (.body ns') →
      Replaced c c' (.tableCell ns) (.tableCell ns')
  | tableRow {cell cell' : List Node} {before after : List (List Node)} :
      Replaced c c' (.tableCell cell) (.tableCell cell') →
      Replaced c c' (.tableRow (before ++ cell :: after)) (.tableRow (before ++ cell' :: after))
  | header {header header' : List (List Node)} {rows : List (List (List Node))} :
      Replaced c c' (.tableRow header) (.tableRow header') →
      Replaced c c' (.table header rows) (.table header' rows)
  | row {header row row' : List (List Node)} {before after : List (List (List Node))} :
      Replaced c c' (.tableRow row) (.tableRow row') →
      Replaced c c' (.table header (before ++ row :: after))
        (.table header (before ++ row' :: after))

namespace Replaced

/-- A node in its own place changes nothing. -/
theorem eq_of_self (h : Replaced c c t t') : t' = t := by
  induction h with
  | here => rfl
  | inside hnodes _ ih => rw [ih, withNodes_self hnodes]
  | noteBox _ ih => rw [Node.noteBox.injEq, ← Node.body.injEq, ih]
  | tableCell _ ih => rw [Node.tableCell.injEq, ← Node.body.injEq, ih]
  | tableRow _ ih => rw [Node.tableCell.inj ih]
  | header _ ih => rw [Node.tableRow.inj ih]
  | row _ ih => rw [Node.tableRow.inj ih]

theorem kind_eq (h : Replaced c c' t t') (hkind : c'.kind = c.kind) : t'.kind = t.kind := by
  cases h with
  | here => exact hkind
  | inside => exact kind_withNodes _ _
  | _ => rfl

/-- A property of the nodes in a list stays when one of them is replaced by a node that has it
too. -/
theorem forall_mem_replace {α : Type} {p : α → Prop} {before after : List α} {a a' : α}
    (h : ∀ b ∈ before ++ a :: after, p b) (ha : p a → p a') :
    ∀ b ∈ before ++ a' :: after, p b := by
  obtain ⟨hbefore, hrest⟩ := List.forall_mem_append.mp h
  obtain ⟨hp, hafter⟩ := List.forall_mem_cons.mp hrest
  exact List.forall_mem_append.mpr ⟨hbefore, List.forall_mem_cons.mpr ⟨ha hp, hafter⟩⟩

/-- A tree that passes the checker still does when a node in it gives place to one of the same kind,
and the new one passes if the old one does. -/
theorem validate (h : Replaced c c' t t') (hkind : c'.kind = c.kind)
    (hnode : g.validate c = .ok () → g.validate c' = .ok ()) :
    g.validate t = .ok () → g.validate t' = .ok () := by
  induction h with
  | here => exact hnode
  | @inside t n n' before after hnodes hn ih =>
    rw [validate_container hnodes, validate_container (nodes?_withNodes hnodes _),
      kind_withNodes]
    intro h hentry
    obtain ⟨hallowed, hvalid⟩ := h hentry
    refine ⟨forall_mem_replace hallowed fun hn' => ?_, forall_mem_replace hvalid ih⟩
    rwa [hn.kind_eq hkind]
  | noteBox _ ih => exact fun h => validate_noteBox.mpr ((validate_noteBox.mp h).imp_right ih)
  | tableCell _ ih => exact fun h => validate_tableCell.mpr ((validate_tableCell.mp h).imp_right ih)
  | tableRow _ ih =>
    intro h
    obtain ⟨hentry, hcells⟩ := validate_tableRow.mp h
    exact validate_tableRow.mpr ⟨hentry, forall_mem_replace hcells ih⟩
  | header _ ih =>
    intro h
    obtain ⟨hentry, hheader, hrows⟩ := validate_table.mp h
    exact validate_table.mpr ⟨hentry, ih hheader, hrows⟩
  | row _ ih =>
    intro h
    obtain ⟨hentry, hheader, hrows⟩ := validate_table.mp h
    exact validate_table.mpr ⟨hentry, hheader, forall_mem_replace hrows ih⟩

end Replaced

/-! ## Calls -/

/-- What can be asked of a container. -/
inductive Call where
  | append (node : Node)
  | extend (nodes : List Node)
  | appendInParagraph (node : Node)

/-- The nodes that a call is to add. -/
def Call.added : Call → List Node
  | .append n | .appendInParagraph n => [n]
  | .extend ns => ns

namespace Grammar

/-- A container after a call, and what stopped the call. -/
def perform (g : Grammar) (container : Node) : Call → Node × Option Fault
  | .append n => g.appendNode container n
  | .extend ns => g.extendNode container ns
  | .appendInParagraph n => g.appendNodeInParagraph container n

/-- A call somewhere in a tree, with nodes that pass the checker. -/
def Step (g : Grammar) (t t' : Node) : Prop :=
  ∃ container call, (∀ n ∈ Call.added call, g.validate n = .ok ()) ∧
    Replaced container (g.perform container call).1 t t'

/-- The nodes in front of the first one that a container may not hold. -/
def permitted (g : Grammar) (parent : Kind) (nodes : List Node) : List Node :=
  nodes.takeWhile fun n => g.allows parent n.kind

theorem permitted_cons (h : g.allows kind n.kind = true) (ns : List Node) :
    g.permitted kind (n :: ns) = n :: g.permitted kind ns := List.takeWhile_cons_of_pos h

theorem permitted_cons_forbidden (h : ¬ g.allows kind n.kind = true) (ns : List Node) :
    g.permitted kind (n :: ns) = [] := List.takeWhile_cons_of_neg h

theorem allows_of_mem_permitted (h : n ∈ g.permitted kind ns) : g.allows kind n.kind = true :=
  List.mem_takeWhile_imp (p := fun n : Node => g.allows kind n.kind) h

/-- Nodes are added up to the first one that is forbidden. -/
theorem extend_eq_permitted (g : Grammar) (kind : Kind) (nodes ns : List Node) :
    g.extend kind nodes ns = ⟨nodes ++ g.permitted kind ns,
      (g.firstForbidden? kind ns).map (.forbiddenChild kind)⟩ := by
  induction ns generalizing nodes with
  | nil => simp [extend, permitted, firstForbidden?]
  | cons n ns ih =>
    by_cases hallowed : g.allows kind n.kind = true
    · simp [extend, hallowed, ih, permitted, firstForbidden?]
    · simp [extend, hallowed, permitted, firstForbidden?]

/-- The first node that is forbidden parts the nodes. -/
theorem exists_of_firstForbidden? {child : Kind} (h : g.firstForbidden? kind ns = some child) :
    ∃ n after, ns = g.permitted kind ns ++ n :: after ∧ g.allows kind n.kind = false ∧
      child = n.kind := by
  induction ns with
  | nil => cases h
  | cons n ns ih =>
    by_cases hallowed : g.allows kind n.kind = true
    · rw [firstForbidden?, List.find?_cons_of_neg (by simp [hallowed])] at h
      obtain ⟨m, after, hns, hm⟩ := ih h
      refine ⟨m, after, ?_, hm⟩
      rw [permitted_cons hallowed, List.cons_append, ← hns]
    · rw [firstForbidden?, List.find?_cons_of_pos (by simp [hallowed])] at h
      refine ⟨n, ns, ?_, by simpa using hallowed, (Option.some.inj h).symm⟩
      rw [permitted_cons_forbidden hallowed, List.nil_append]

section Container

variable (h : c.nodes? = some nodes)
include h

theorem extendNode_eq (g : Grammar) (ns : List Node) : g.extendNode c ns =
    (c.withNodes (nodes ++ g.permitted c.kind ns),
      (g.firstForbidden? c.kind ns).map (.forbiddenChild c.kind)) := by
  simp only [extendNode, h, extend_eq_permitted]

/-- What a call in the paragraph at the end does is done by adding to that paragraph. Without one,
an empty paragraph is added first, which may be all that is done. -/
theorem appendNodeInParagraph_cases (g : Grammar) (n : Node) :
    (∃ front inner, nodes = front ++ [.paragraph inner] ∧ g.appendNodeInParagraph c n =
      (c.withNodes (front ++ [(g.appendNode (.paragraph inner) n).1]),
        (g.appendNode (.paragraph inner) n).2)) ∨
    (g.allows c.kind .paragraph = false ∧
      g.appendNodeInParagraph c n = (c, some (.forbiddenChild c.kind .paragraph))) ∨
    (g.allows c.kind .paragraph = true ∧ g.appendNodeInParagraph c n =
      (c.withNodes (nodes ++ [(g.appendNode (.paragraph []) n).1]),
        (g.appendNode (.paragraph []) n).2)) := by
  simp only [appendNodeInParagraph, h]
  unfold appendInParagraph
  split
  · rename_i inner hlast
    obtain ⟨front, rfl⟩ := List.getLast?_eq_some_iff.mp hlast
    refine .inl ⟨front, inner, rfl, ?_⟩
    rw [List.dropLast_concat]
    rfl
  · right
    by_cases hallowed : g.allows c.kind .paragraph = true
    · refine .inr ⟨hallowed, ?_⟩
      have hedit : g.append c.kind nodes (.paragraph []) = ⟨nodes ++ [.paragraph []], none⟩ :=
        if_pos hallowed
      rw [hedit]
      rfl
    · refine .inl ⟨by simpa using hallowed, ?_⟩
      have hedit : g.append c.kind nodes (.paragraph []) =
          ⟨nodes, some (.forbiddenChild c.kind .paragraph)⟩ := if_neg hallowed
      rw [hedit]
      exact congrArg (·, _) (withNodes_self h)

end Container

/-! ## One call -/

section Stopped

variable (h : c.nodes? = some nodes)
include h

/-- What is added before the node that stops it stays. -/
theorem extendNode_stopped (hfault : (g.extendNode c ns).2 = some fault) :
    ∃ before n after, ns = before ++ n :: after ∧
      (∀ m ∈ before, g.allows c.kind m.kind = true) ∧ g.allows c.kind n.kind = false ∧
      fault = .forbiddenChild c.kind n.kind ∧
      (g.extendNode c ns).1 = c.withNodes (nodes ++ before) := by
  simp only [extendNode_eq h] at hfault ⊢
  obtain ⟨child, hchild, hforbidden⟩ := Option.map_eq_some_iff.mp hfault
  obtain ⟨n, after, hns, hn, rfl⟩ := exists_of_firstForbidden? hchild
  exact ⟨_, n, after, hns, fun m hm => allows_of_mem_permitted hm, hn, hforbidden.symm, rfl⟩

theorem appendNode_stopped (hfault : (g.appendNode c n).2 = some fault) :
    fault = .forbiddenChild c.kind n.kind ∧ (g.appendNode c n).1 = c := by
  obtain ⟨before, m, after, hns, -, -, hforbidden, heq⟩ := extendNode_stopped h hfault
  cases before with
  | nil =>
    cases hns
    rw [List.append_nil, withNodes_self h] at heq
    exact ⟨hforbidden, heq⟩
  | cons b before => simp at hns

/-- At most an empty paragraph is left. -/
theorem appendNodeInParagraph_stopped (hfault : (g.appendNodeInParagraph c n).2 = some fault) :
    (∃ parent child, fault = .forbiddenChild parent child) ∧
    ((g.appendNodeInParagraph c n).1 = c ∨
      (g.appendNodeInParagraph c n).1 = c.withNodes (nodes ++ [.paragraph []])) := by
  obtain ⟨front, inner, rfl, heq⟩ | ⟨-, heq⟩ | ⟨-, heq⟩ := appendNodeInParagraph_cases h g n
  · simp only [heq] at hfault ⊢
    obtain ⟨hforbidden, hsame⟩ := appendNode_stopped rfl hfault
    rw [hsame, withNodes_self h]
    exact ⟨⟨_, _, hforbidden⟩, .inl rfl⟩
  · rw [heq] at hfault ⊢
    exact ⟨⟨_, _, (Option.some.inj hfault).symm⟩, .inl rfl⟩
  · simp only [heq] at hfault ⊢
    obtain ⟨hforbidden, hsame⟩ := appendNode_stopped rfl hfault
    rw [hsame]
    exact ⟨⟨_, _, hforbidden⟩, .inr rfl⟩

end Stopped

theorem kind_extendNode (g : Grammar) (c : Node) (ns : List Node) :
    (g.extendNode c ns).1.kind = c.kind := by
  unfold extendNode
  split
  · exact kind_withNodes _ _
  · rfl

/-- Adding nodes that pass the checker to a container that does leaves one that does. -/
theorem validate_extendNode (hc : g.validate c = .ok ()) (hns : ∀ n ∈ ns, g.validate n = .ok ()) :
    g.validate (g.extendNode c ns).1 = .ok () := by
  cases h : c.nodes? with
  | none =>
    rw [extendNode, h]
    exact hc
  | some nodes =>
    rw [extendNode_eq h, validate_container (nodes?_withNodes h _), kind_withNodes]
    intro hentry
    obtain ⟨hallowed, hvalid⟩ := (validate_container h).mp hc hentry
    constructor
    · exact List.forall_mem_append.mpr ⟨hallowed, fun n hn => allows_of_mem_permitted hn⟩
    · exact List.forall_mem_append.mpr
        ⟨hvalid, fun n hn => hns n ((List.takeWhile_sublist _).subset hn)⟩

theorem kind_perform (g : Grammar) (c : Node) (call : Call) :
    (g.perform c call).1.kind = c.kind := by
  cases call with
  | append n => exact kind_extendNode g c [n]
  | extend ns => exact kind_extendNode g c ns
  | appendInParagraph n =>
    unfold perform appendNodeInParagraph
    dsimp only
    split
    · exact kind_withNodes _ _
    · rfl

/-- A paragraph at the end of a container that gives place to one with a node more. -/
theorem validate_endParagraph {front inner : List Node}
    (h : c.nodes? = some (front ++ [.paragraph inner])) (hc : g.validate c = .ok ())
    (hn : g.validate n = .ok ()) :
    g.validate (c.withNodes (front ++ [(g.appendNode (.paragraph inner) n).1])) = .ok () := by
  have hinside : Replaced (.paragraph inner) (g.appendNode (.paragraph inner) n).1 c
      (c.withNodes (front ++ [(g.appendNode (.paragraph inner) n).1])) := .inside h .here
  exact hinside.validate (kind_extendNode _ _ _)
    (fun hp => validate_extendNode hp (List.forall_mem_singleton.mpr hn)) hc

/-- A call with nodes that pass the checker leaves a container that does. -/
theorem validate_perform (call : Call) (hns : ∀ n ∈ call.added, g.validate n = .ok ())
    (hc : g.validate c = .ok ()) : g.validate (g.perform c call).1 = .ok () := by
  cases call with
  | append n => exact validate_extendNode hc hns
  | extend ns => exact validate_extendNode hc hns
  | appendInParagraph n =>
    have hn : g.validate n = .ok () := hns n (List.mem_singleton_self n)
    unfold perform
    cases h : c.nodes? with
    | none =>
      simp only [appendNodeInParagraph, h]
      exact hc
    | some nodes =>
      obtain ⟨front, inner, rfl, heq⟩ | ⟨-, heq⟩ | ⟨hallowed, heq⟩ :=
        appendNodeInParagraph_cases h g n
      · simp only [heq]
        exact validate_endParagraph h hc hn
      · simp only [heq]
        exact hc
      · simp only [heq]
        have hempty : ∀ m ∈ [Node.paragraph []], g.validate m = .ok () :=
          List.forall_mem_singleton.mpr ((validate_container rfl).mpr fun _ => by simp)
        have hopened := validate_extendNode hc hempty
        rw [extendNode_eq h, permitted_cons hallowed] at hopened
        have hend := validate_endParagraph (nodes?_withNodes h _) hopened hn
        rwa [withNodes_withNodes] at hend

/-- A call anywhere in a tree that passes the checker leaves one that does. -/
theorem Step.validate (h : g.Step t t') (ht : g.validate t = .ok ()) : g.validate t' = .ok () := by
  obtain ⟨container, call, hns, hreplaced⟩ := h
  exact hreplaced.validate (kind_perform g container call) (validate_perform call hns) ht

/-- Any calls on the containers of a tree that passes the checker, with nodes that do, leave a tree
that does, whatever stops them and whichever kinds the grammar has entries for. A call is stopped by
a forbidden node only. Then a single node leaves the tree as it was, of several nodes exactly those
in front of the first forbidden one were added, and a node for the paragraph at the end leaves at
most that paragraph, which is empty. -/
theorem calls_account (ht : g.validate t = .ok ()) (hcalls : Relation.ReflTransGen g.Step t t') :
    g.validate t' = .ok () ∧
    ∀ container nodes call fault t'', container.nodes? = some nodes →
      (g.perform container call).2 = some fault →
      Replaced container (g.perform container call).1 t' t'' →
      (∃ parent child, fault = .forbiddenChild parent child) ∧
      match call with
      | .append _ => t'' = t'
      | .extend ns => ∃ before n after, ns = before ++ n :: after ∧
          (∀ m ∈ before, g.allows container.kind m.kind = true) ∧
          g.allows container.kind n.kind = false ∧
          Replaced container (container.withNodes (nodes ++ before)) t' t''
      | .appendInParagraph _ => t'' = t' ∨
          Replaced container (container.withNodes (nodes ++ [.paragraph []])) t' t'' := by
  constructor
  · induction hcalls with
    | refl => exact ht
    | tail _ hstep ih => exact hstep.validate ih
  · intro container nodes call fault t'' hnodes hfault hreplaced
    cases call with
    | append n =>
      obtain ⟨hforbidden, hsame⟩ := appendNode_stopped hnodes hfault
      refine ⟨⟨_, _, hforbidden⟩, ?_⟩
      rw [perform, hsame] at hreplaced
      exact hreplaced.eq_of_self
    | extend ns =>
      obtain ⟨before, n, after, hns, hbefore, hn, hforbidden, heq⟩ :=
        extendNode_stopped hnodes hfault
      rw [perform, heq] at hreplaced
      exact ⟨⟨_, _, hforbidden⟩, before, n, after, hns, hbefore, hn, hreplaced⟩
    | appendInParagraph n =>
      obtain ⟨hforbidden, hsame | hopened⟩ := appendNodeInParagraph_stopped hnodes hfault
      · refine ⟨hforbidden, .inl ?_⟩
        rw [perform, hsame] at hreplaced
        exact hreplaced.eq_of_self
      · refine ⟨hforbidden, .inr ?_⟩
        rwa [perform, hopened] at hreplaced

/-- A section with a note, whose text is added to and which then refuses loose text. -/
def noted (inner : List Node) (after : List Node) : Node :=
  .body (.noteBox [.paragraph inner] :: after)

theorem calls_account_noted :
    let t' := noted [.plainText "Beware.", .softBreak] [.anchor "end"]
    Relation.ReflTransGen standard.Step (noted [.plainText "Beware."] []) t' ∧
    standard.validate t' = .ok () ∧
    ∀ container nodes call fault t'', container.nodes? = some nodes →
      (standard.perform container call).2 = some fault →
      Replaced container (standard.perform container call).1 t' t'' →
      (∃ parent child, fault = .forbiddenChild parent child) ∧
      match call with
      | .append _ => t'' = t'
      | .extend ns => ∃ before n after, ns = before ++ n :: after ∧
          (∀ m ∈ before, standard.allows container.kind m.kind = true) ∧
          standard.allows container.kind n.kind = false ∧
          Replaced container (container.withNodes (nodes ++ before)) t' t''
      | .appendInParagraph _ => t'' = t' ∨
          Replaced container (container.withNodes (nodes ++ [.paragraph []])) t' t'' := by
  have hnote : standard.Step (noted [.plainText "Beware."] [])
      (noted [.plainText "Beware.", .softBreak] []) := by
    refine ⟨.body [.paragraph [.plainText "Beware."]], .appendInParagraph .softBreak, ?_, ?_⟩
    · exact List.forall_mem_singleton.mpr rfl
    · have hnodes : (noted [.plainText "Beware."] []).nodes? =
          some ([] ++ .noteBox [.paragraph [.plainText "Beware."]] :: []) := rfl
      exact .inside hnodes (.noteBox .here)
  have hend : standard.Step (noted [.plainText "Beware.", .softBreak] [])
      (noted [.plainText "Beware.", .softBreak] [.anchor "end"]) := by
    refine ⟨noted [.plainText "Beware.", .softBreak] [],
      .extend [.anchor "end", .plainText "loose"], ?_, .here⟩
    exact List.forall_mem_cons.mpr ⟨rfl, List.forall_mem_singleton.mpr rfl⟩
  have hcalls := (Relation.ReflTransGen.single hnote).tail hend
  exact ⟨hcalls, calls_account rfl hcalls⟩

end Grammar

end ApiReference.Doc
