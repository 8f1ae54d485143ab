import ApiReference.Doc.Trim
import ApiReference.Proofs.Text.Collapse

/-!
# What trimming leaves of a paragraph

A paragraph is a row of items: the characters of its texts, soft breaks counted as
spaces, and the nodes between them.  Trimming makes one pass over these items,
whatever texts they are divided into (`itemsOf_trimNodes`): the state of a run of text
is all that the pass has to remember from one node to the next (`text_add`,
`state_add`).
-/

namespace ApiReference.Doc

open Text

variable {t : Trim} {s : Text} {n : Node} {ns : List Node}

/-! ## Items -/

/-- What a paragraph is a row of: characters, and nodes that are no text. -/
inductive Item where
  | char (c : Char)
  | node (n : Node)

namespace Item

def isBlank : Item → Bool
  | char c => Text.isBlank c
  | node _ => false

def space : Item := char ' '

end Item

/-- The items of a node. A soft break is as good as a space. -/
def Node.items : Node → List Item
  | .plainText t => t.map .char
  | .softBreak => [.space]
  | n => [.node n]

theorem Node.items_of_not_text (n : Node) (hplain : ∀ t, n = .plainText t → False)
    (hsoft : n = .softBreak → False) : n.items = [.node n] := by
  cases n with
  | plainText t => exact absurd rfl (hplain t)
  | softBreak => exact absurd rfl hsoft
  | _ => rfl

def itemsOf (ns : List Node) : List Item := ns.flatMap Node.items

/-! ## One run of text -/

namespace Trim

/-- A space is due only behind something visible. -/
def Settled (t : Trim) : Prop := t.pending = true → t.started = true

theorem text_settle (t : Trim) : t.settle.text = t.text ++ if t.pending then [' '] else [] := by
  unfold settle
  split
  · simp [text]
  · rw [List.append_nil]

theorem text_blank (t : Trim) (found : Bool) : (t.blank found).text = t.text := by
  unfold blank
  split <;> rfl

theorem started_blank (t : Trim) (found : Bool) : (t.blank found).started = t.started := by
  unfold blank
  split <;> rfl

theorem pending_blank (t : Trim) (found : Bool) :
    (t.blank found).pending = (t.pending || (found && t.started)) := by
  unfold blank
  split
  · rename_i h
    rw [h, Bool.or_true]
  · rename_i h
    rw [Bool.not_eq_true] at h
    rw [h, Bool.or_false]

theorem text_visible (t : Trim) (s : Text) : (t.visible s).text =
    t.text ++ if s = [] then [] else if t.pending then ' ' :: s else s := by
  unfold visible
  split
  · rename_i h
    rw [if_pos (List.isEmpty_iff.mp h), List.append_nil]
  · rename_i h
    have hcons : ∀ u : Trim, text { u with chunks := s :: u.chunks, started := true } =
        u.text ++ s := by
      intro u
      simp [text]
    rw [if_neg (fun hc => h (List.isEmpty_iff.mpr hc)), hcons, text_settle, List.append_assoc]
    split <;> rfl

theorem state_visible (t : Trim) (s : Text) : ((t.visible s).started, (t.visible s).pending) =
    if s = [] then (t.started, t.pending) else (true, false) := by
  unfold visible
  split
  · rename_i h
    rw [if_pos (List.isEmpty_iff.mp h)]
  · rename_i h
    have hpending : t.settle.pending = false := by
      unfold settle
      split
      · rfl
      · exact Bool.not_eq_true _ ▸ ‹_›
    rw [if_neg (fun hc => h (List.isEmpty_iff.mpr hc)), hpending]

/-- A text adds what the pass over its characters leaves. -/
theorem text_add (h : t.Settled) (s : Text) : (t.add s).text =
    t.text ++ squeezeFrom Text.isBlank ' ' t.started t.pending s := by
  unfold add
  dsimp only
  rw [text_blank, text_visible, text_blank, pending_blank, trim_collapse, squeezeFrom_eq h]

/-- After a text the same is remembered as after the pass over its characters. -/
theorem state_add (h : t.Settled) (s : Text) : ((t.add s).started, (t.add s).pending) =
    squeezeState Text.isBlank t.started t.pending s := by
  have hstate := state_visible (t.blank (s.head?.any Text.isBlank)) (trim (collapse s))
  have hpass : squeezeState Text.isBlank t.started t.pending s =
      if squeeze Text.isBlank ' ' s = []
        then (t.started, t.pending || (s.getLast?.any Text.isBlank && t.started))
        else (true, s.getLast?.any Text.isBlank) := squeezeState_eq h s
  unfold add
  dsimp only
  rw [started_blank, pending_blank, hpass, ← trim_collapse]
  rw [started_blank, pending_blank] at hstate
  split at hstate
  · rename_i hnil
    obtain ⟨hstarted, hpending⟩ := Prod.mk.inj hstate
    rw [if_pos hnil, hstarted, hpending]
    cases s with
    | nil => simp
    | cons c s =>
      rw [trim_collapse] at hnil
      rw [getLast?_any_of_squeeze_eq_nil hnil (List.cons_ne_nil c s)]
      cases t.pending <;> cases t.started <;> simp
  · rename_i hne
    obtain ⟨hstarted, hpending⟩ := Prod.mk.inj hstate
    rw [if_neg hne, hstarted, hpending, Bool.and_true, Bool.false_or]

theorem Settled.blank (h : t.Settled) (found : Bool) : (t.blank found).Settled := by
  intro hpending
  rw [pending_blank, Bool.or_eq_true, Bool.and_eq_true] at hpending
  rw [started_blank]
  rcases hpending with hpending | ⟨-, hstarted⟩
  · exact h hpending
  · exact hstarted

theorem Settled.add (h : t.Settled) (s : Text) : (t.add s).Settled := by
  unfold Trim.add
  refine Settled.blank (fun hpending => ?_) _
  have hstate := state_visible (t.blank (s.head?.any Text.isBlank)) (trim (collapse s))
  split at hstate
  · obtain ⟨hstarted, hpending'⟩ := Prod.mk.inj hstate
    rw [hstarted]
    exact h.blank _ (hpending'.symm.trans hpending)
  · exact (Prod.mk.inj hstate).1

end Trim

/-! ## Paragraphs -/

theorem itemsOf_cons (n : Node) (ns : List Node) : itemsOf (n :: ns) = n.items ++ itemsOf ns :=
  List.flatMap_cons

theorem itemsOf_append (ns ms : List Node) : itemsOf (ns ++ ms) = itemsOf ns ++ itemsOf ms :=
  List.flatMap_append

theorem itemsOf_flush (t : Trim) : itemsOf t.flush = t.text.map .char := by
  unfold Trim.flush
  split
  · rename_i h
    rw [Trim.text, List.isEmpty_iff.mp h]
    rfl
  · exact List.append_nil _

/-- Trimming a paragraph is one pass over its items. -/
theorem itemsOf_trimFrom (h : t.Settled) (ns : List Node) :
    itemsOf (trimFrom t ns) = t.text.map .char ++
      squeezeFrom Item.isBlank .space t.started t.pending (itemsOf ns) := by
  fun_induction trimFrom t ns with
  | case1 t => rw [itemsOf_flush]; exact (List.append_nil _).symm
  | case2 t s ns ih =>
    have hmap : ∀ c ∈ s, Item.isBlank (.char c) = Text.isBlank c := fun _ _ => rfl
    obtain ⟨hstarted, hpending⟩ := Prod.mk.inj (Trim.state_add h s)
    rw [ih (h.add s), itemsOf_cons, Node.items, squeezeFrom_append, Item.space,
      squeezeFrom_map hmap, squeezeState_map hmap, hstarted, hpending, Trim.text_add h,
      List.map_append, List.append_assoc]
  | case3 t ns ih =>
    have hpending : (t.pending || (true && t.started)) = t.started := by
      cases hp : t.pending with
      | true => rw [h hp, Bool.true_or]
      | false => rw [Bool.true_and, Bool.false_or]
    have hspace : squeezeFrom Item.isBlank .space t.started t.pending (.space :: itemsOf ns) =
        squeezeFrom Item.isBlank .space t.started t.started (itemsOf ns) := rfl
    rw [ih (h.blank true), itemsOf_cons, Trim.text_blank, Trim.started_blank, Trim.pending_blank,
      hpending]
    exact congrArg _ hspace.symm
  | case4 t n ns hplain hsoft ih =>
    have hfresh : Trim.Settled ⟨[], false, true⟩ := fun _ => rfl
    have hnil : Trim.text ⟨[], false, true⟩ = [] := rfl
    have hblank : Item.isBlank (.node n) = false := rfl
    rw [itemsOf_append, itemsOf_flush, itemsOf_cons, itemsOf_cons, ih hfresh, hnil,
      n.items_of_not_text hplain hsoft, Trim.text_settle, List.map_append, List.append_assoc,
      List.singleton_append, List.singleton_append, squeezeFrom, hblank,
      if_neg Bool.false_ne_true]
    cases t.pending <;> rfl

/-- Trimmed, a paragraph has one space for every run of blank items between others, and none at the
ends. -/
theorem itemsOf_trimNodes (ns : List Node) :
    itemsOf (trimNodes ns) = squeeze Item.isBlank .space (itemsOf ns) :=
  itemsOf_trimFrom (t := .initial) (fun h => absurd h Bool.false_ne_true) ns

/-- Trimming makes no nodes but texts, and leaves no soft break. -/
theorem mem_of_mem_trimFrom (h : n ∈ trimFrom t ns) :
    (∃ s, n = .plainText s) ∨ (n ∈ ns ∧ n ≠ .softBreak) := by
  have hflush : ∀ (t : Trim), ∀ n ∈ t.flush, ∃ s, n = .plainText s := by
    intro t n hn
    unfold Trim.flush at hn
    split at hn
    · exact absurd hn List.not_mem_nil
    · exact ⟨_, List.mem_singleton.mp hn⟩
  fun_induction trimFrom t ns with
  | case1 t => exact .inl (hflush t n h)
  | case2 t s ns ih => exact (ih h).imp_right fun hn => ⟨List.mem_cons_of_mem _ hn.1, hn.2⟩
  | case3 t ns ih => exact (ih h).imp_right fun hn => ⟨List.mem_cons_of_mem _ hn.1, hn.2⟩
  | case4 t m ns _ hsoft ih =>
    rcases List.mem_append.mp h with h | h
    · exact .inl (hflush _ n h)
    · rcases List.mem_cons.mp h with rfl | h
      · exact .inr ⟨List.mem_cons_self .., hsoft⟩
      · exact (ih h).imp_right fun hn => ⟨List.mem_cons_of_mem _ hn.1, hn.2⟩

end ApiReference.Doc
