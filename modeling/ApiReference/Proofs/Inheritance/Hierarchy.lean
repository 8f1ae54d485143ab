import ApiReference.Inheritance.Tree
import ApiReference.Proofs.Inheritance.Children
import ApiReference.Proofs.Inheritance.Distance

/-!
# How often a class occurs in its own class tree

Every type above a class is shown with all its child classes, and a class counts as a
child of what it implements as well as of what it extends.  So a class of a graph
without cycles occurs once in its class tree, and a second time exactly if it
implements a type that its parent class descends from (`occurrences_classTree`).  The
tree below a class never shows it again; every step up adds one occurrence or none
(`occurrences_graft`), and the induction along the chain of parent classes tells where
it is one (`occurrences_parentTreeFrom`).
-/

namespace ApiReference.Inheritance

open Declaration Scope

variable {root : Declaration} {g : Graph} {l : Links} {a b c : Address} {ref parent : Ref}
variable {tree : Tree} {direction : Direction} {seen cs : List Address} {n : Nat}

/-! ## Graphs without cycles -/

/-- No way up comes back to where it started. -/
def Acyclic (g : Graph) : Prop := ∀ a n, ¬ Ascent g a (n + 1) a

theorem Ascent.head (h : Ref.declaration b ∈ g.parentsOf a) (hc : Ascent g b n c) :
    Ascent g a (n + 1) c := by
  induction hc with
  | refl => exact .tail .refl h
  | tail _ hstep ih => exact .tail ih hstep

/-- A number that falls from every entry of a graph to its parents. -/
def Falls (rank : Address → Nat) (g : Graph) : Prop :=
  ∀ e ∈ g, ∀ ref ∈ e.2.parents, ∀ b ∈ ref.address?, rank b < rank e.1

instance (rank : Address → Nat) (g : Graph) : Decidable (Falls rank g) :=
  inferInstanceAs (Decidable (∀ e ∈ g, ∀ ref ∈ e.2.parents, ∀ b ∈ ref.address?, rank b < rank e.1))

theorem Falls.add_le {rank : Address → Nat} (hrank : Falls rank g) (h : Ascent g a n b) :
    rank b + n ≤ rank a := by
  induction h with
  | refl => exact le_rfl
  | @tail n b c _ hc ih =>
    obtain ⟨l, hl, hparent⟩ := mem_parentsOf.mp hc
    have hlt : rank c < rank b := hrank (b, l) (mem_of_lookup hl) _ hparent c rfl
    omega

theorem Falls.acyclic {rank : Address → Nat} (hrank : Falls rank g) : Acyclic g := by
  intro a n h
  have hle := hrank.add_le h
  omega

/-! ## The chain of parent classes -/

/-- `b` is met `n` steps up the chain of parent classes that starts with a type. -/
inductive Above (g : Graph) (b : Address) : Nat → Ref → Prop
  | here : Above g b 0 (.declaration b)
  | up {n : Nat} {a : Address} {parent : Ref} :
      (g.links? a).bind Links.parentClass? = some parent → Above g b n parent →
      Above g b (n + 1) (.declaration a)

theorem mem_parentsOf_of_parentClass (h : (g.links? a).bind Links.parentClass? = some parent) :
    parent ∈ g.parentsOf a := by
  obtain ⟨l, hl, hparent⟩ := Option.bind_eq_some_iff.mp h
  exact mem_parentsOf.mpr ⟨l, hl, List.mem_append_left _ (Option.mem_toList.mpr hparent)⟩

/-- The chain of parent classes is a way up. -/
theorem Above.ascent (h : Above g b n ref) (href : ref = .declaration a) : Ascent g a n b := by
  induction h generalizing a with
  | here =>
    cases href
    exact .refl
  | up hparent habove ih =>
    cases href
    cases habove with
    | here => exact .head (mem_parentsOf_of_parentClass hparent) .refl
    | up hnext habove =>
      exact .head (mem_parentsOf_of_parentClass hparent) (ih rfl)

/-- A class that implements a type that its parent class extends, directly or not. -/
def ImplementsAncestor (g : Graph) (a : Address) : Prop :=
  ∃ n b l, 2 ≤ n ∧ Above g b n (.declaration a) ∧ (g.links? b).isSome ∧
    g.links? a = some l ∧ Ref.declaration b ∈ l.parentInterfaces

/-! ## Occurrences -/

namespace Tree

mutual

/-- The types of a tree, in the order in which a diagram shows them. -/
def items : Tree → List Ref
  | node item children => item :: itemsAll children

def itemsAll : List Tree → List Ref
  | [] => []
  | t :: ts => items t ++ itemsAll ts

end

def occurrences (t : Tree) (a : Address) : Nat := t.items.count (.declaration a)

def occurrencesAll (ts : List Tree) (a : Address) : Nat := (itemsAll ts).count (.declaration a)

theorem occurrences_node (item : Ref) (ts : List Tree) (a : Address) :
    (node item ts).occurrences a =
      occurrencesAll ts a + if item = .declaration a then 1 else 0 := by
  rw [occurrences, items, List.count_cons, occurrencesAll]
  simp only [beq_iff_eq]

theorem occurrencesAll_nil (a : Address) : occurrencesAll [] a = 0 := rfl

theorem occurrencesAll_cons (t : Tree) (ts : List Tree) (a : Address) :
    occurrencesAll (t :: ts) a = t.occurrences a + occurrencesAll ts a := by
  rw [occurrencesAll, itemsAll, List.count_append]
  rfl

theorem occurrencesAll_append (ts us : List Tree) (a : Address) :
    occurrencesAll (ts ++ us) a = occurrencesAll ts a + occurrencesAll us a := by
  induction ts with
  | nil => rw [List.nil_append, occurrencesAll_nil, Nat.zero_add]
  | cons t ts ih =>
    rw [List.cons_append, occurrencesAll_cons, ih, occurrencesAll_cons, Nat.add_assoc]

theorem occurrencesAll_singleton (t : Tree) (a : Address) :
    occurrencesAll [t] a = t.occurrences a := by
  rw [occurrencesAll_cons, occurrencesAll_nil, Nat.add_zero]

theorem occurrencesAll_eq_zero {ts : List Tree} (h : ∀ t ∈ ts, t.occurrences a = 0) :
    occurrencesAll ts a = 0 := by
  induction ts with
  | nil => rfl
  | cons t ts ih =>
    obtain ⟨ht, hts⟩ := List.forall_mem_cons.mp h
    rw [occurrencesAll_cons, ht, ih hts]

theorem occurrences_leaf (item : Ref) (a : Address) :
    (leaf item).occurrences a = if item = .declaration a then 1 else 0 := by
  rw [leaf, occurrences_node, occurrencesAll_nil, Nat.zero_add]

end Tree

open ApiReference.Inheritance.Tree

/-! ## Below a class -/

/-- What was seen further up is not shown again. -/
theorem occurrences_childTreeFrom (ha : a ∈ seen) (hnew : isNew seen ref = true) :
    (childTreeFrom g direction seen ref).occurrences a = 0 := by
  have hne : ∀ {b : Address} {seen : List Address}, a ∈ seen → b ∉ seen →
      Ref.declaration b ≠ .declaration a := by
    rintro b seen ha hb hba
    cases hba
    exact hb ha
  fun_induction childTreeFrom g direction seen ref with
  | case1 seen name =>
    rw [occurrences_leaf]
    exact if_neg (by simp)
  | case2 seen b hb =>
    rw [isNew, Bool.not_eq_true', List.contains_eq_mem, decide_eq_false_iff_not] at hnew
    exact absurd hb hnew
  | case3 seen b hb hl =>
    rw [occurrences_leaf]
    exact if_neg (hne ha hb)
  | case4 seen b hb l hl ih =>
    have hbelow : ∀ t ∈ ((l.follow direction).filter (isNew (b :: seen))).map
        (childTreeFrom g direction (b :: seen)), t.occurrences a = 0 := by
      intro t ht
      obtain ⟨child, hchild, rfl⟩ := List.mem_map.mp ht
      exact ih child (List.mem_cons_of_mem _ ha) (List.mem_filter.mp hchild).2
    rw [occurrences_node, occurrencesAll_eq_zero hbelow, if_neg (hne ha hb)]

theorem item_childTree : (childTree g direction (.declaration a)).item = .declaration a := by
  rw [childTree, childTreeFrom]
  split
  · rfl
  · split
    · rfl
    · rfl

theorem occurrences_childTree : (childTree g direction (.declaration a)).occurrences a = 1 := by
  rw [childTree, childTreeFrom, dif_neg List.not_mem_nil]
  split
  · rw [occurrences_leaf, if_pos rfl]
  · rw [occurrences_node, if_pos rfl, occurrencesAll_eq_zero]
    intro t ht
    obtain ⟨child, hchild, rfl⟩ := List.mem_map.mp ht
    exact occurrences_childTreeFrom (List.mem_cons_self ..) (List.mem_filter.mp hchild).2

/-! ## Above a class -/

/-- Among child classes without repetition a tree stands once, and each of the others is shown. -/
theorem occurrencesAll_inPlace (hcs : cs.Nodup) (tree : Tree) (a : Address) :
    occurrencesAll (cs.map fun b => if tree.item = .declaration b then tree
        else .leaf (.declaration b)) a =
      (if ∃ b ∈ cs, tree.item = .declaration b then tree.occurrences a else 0) +
        if a ∈ cs ∧ tree.item ≠ .declaration a then 1 else 0 := by
  induction cs with
  | nil => simp [occurrencesAll_nil]
  | cons c cs ih =>
    obtain ⟨hc, hcs⟩ := List.nodup_cons.mp hcs
    rw [List.map_cons, occurrencesAll_cons, ih hcs]
    by_cases hitem : tree.item = .declaration c
    · have hfound : ∃ b ∈ c :: cs, tree.item = .declaration b :=
        ⟨c, List.mem_cons_self .., hitem⟩
      have hnone : ¬ ∃ b ∈ cs, tree.item = .declaration b := by
        rintro ⟨b, hb, hbitem⟩
        obtain rfl := Ref.declaration.inj (hitem.symm.trans hbitem)
        exact hc hb
      have hothers : (a ∈ c :: cs ∧ tree.item ≠ .declaration a) ↔
          (a ∈ cs ∧ tree.item ≠ .declaration a) := by
        refine and_congr_left fun hne => List.mem_cons.trans (or_iff_right ?_)
        rintro rfl
        exact hne hitem
      rw [if_pos hitem, if_neg hnone, if_pos hfound, if_congr hothers rfl rfl, Nat.zero_add]
    · have hfound : (∃ b ∈ c :: cs, tree.item = .declaration b) ↔
          ∃ b ∈ cs, tree.item = .declaration b := by
        simp [hitem]
      rw [if_neg hitem, occurrences_leaf, if_congr hfound rfl rfl]
      by_cases hac : c = a
      · subst hac
        simp [hitem, hc, Nat.add_comm]
      · have hac' : a ≠ c := Ne.symm hac
        simp [hac, hac']

/-- Put among child classes a tree stands once, and `a` is one more of them if it is a child class
that the tree does not start with. -/
theorem occurrences_graft (hcs : cs.Nodup) (tree : Tree) (a : Address) :
    occurrencesAll (graft cs tree) a =
      tree.occurrences a + if a ∈ cs ∧ tree.item ≠ .declaration a then 1 else 0 := by
  have hfound : (cs.map Ref.declaration).contains tree.item = true ↔
      ∃ b ∈ cs, tree.item = .declaration b := by
    rw [List.contains_iff_mem, List.mem_map]
    simp only [eq_comm]
  unfold graft
  split
  · rename_i h
    rw [occurrencesAll_inPlace hcs, if_pos (hfound.mp h)]
  · rename_i h
    have hnone : ¬ ∃ b ∈ cs, tree.item = .declaration b := fun hc => h (hfound.mpr hc)
    -- where the tree is not in place, putting it in place would leave all child classes
    have hall := occurrencesAll_inPlace hcs tree a
    have hleaves : (cs.map fun b => if tree.item = .declaration b then tree
        else .leaf (.declaration b)) = cs.map fun b => .leaf (.declaration b) :=
      List.map_congr_left fun b hb => if_neg fun hitem => hnone ⟨b, hb, hitem⟩
    rw [hleaves, if_neg hnone, Nat.zero_add] at hall
    rw [occurrencesAll_append, hall, occurrencesAll_singleton, Nat.add_comm]

/-- One step up adds no occurrence if `a` is no child class there, or is what the tree starts
with. -/
theorem occurrences_above (hcs : cs.Nodup) (hne : b ≠ a) (tree : Tree) :
    tree.occurrences a ≤ (Tree.node (.declaration b) (graft cs tree)).occurrences a ∧
      ((Tree.node (.declaration b) (graft cs tree)).occurrences a = tree.occurrences a ↔
        (a ∈ cs → tree.item = .declaration a)) := by
  have hitem : Ref.declaration b ≠ .declaration a := fun heq => hne (Ref.declaration.inj heq)
  rw [occurrences_node, if_neg hitem, occurrences_graft hcs, Nat.add_zero]
  refine ⟨Nat.le_add_right _ _, ?_⟩
  split
  · rename_i h
    exact iff_of_false (by omega) fun hstart => h.2 (hstart h.1)
  · rename_i h
    exact iff_of_true (Nat.add_zero _) fun hmem => by_contra fun hstart => h ⟨hmem, hstart⟩

/-- Whether `a` is repeated above a tree is told by the child classes along the chain: none of the
types on it has `a` as a child class, unless it is the first one and the tree starts with `a`. -/
theorem occurrences_parentTreeFrom (hchildren : ∀ b l, g.links? b = some l → l.childClasses.Nodup)
    (hacyclic : Acyclic g)
    (hbelow : ∀ b, ref = .declaration b → ∀ c ∈ a :: seen, ∃ n, Ascent g c (n + 1) b)
    (tree : Tree) :
    tree.occurrences a ≤ (parentTreeFrom g seen ref tree).occurrences a ∧
      ((parentTreeFrom g seen ref tree).occurrences a = tree.occurrences a ↔
        ∀ n b l, Above g b n ref → g.links? b = some l → a ∈ l.childClasses →
          n = 0 ∧ tree.item = .declaration a) := by
  have hne : ∀ {b : Address} {seen : List Address},
      (∀ c ∈ a :: seen, ∃ n, Ascent g c (n + 1) b) → b ≠ a := by
    rintro b seen h rfl
    obtain ⟨n, h⟩ := h b (List.mem_cons_self ..)
    exact hacyclic b n h
  fun_induction parentTreeFrom g seen ref tree with
  | case1 seen tree name =>
    rw [occurrences_node, occurrencesAll_singleton, if_neg (by simp), Nat.add_zero]
    refine ⟨le_rfl, iff_of_true rfl fun n b l habove => ?_⟩
    cases habove
  | case2 seen tree b hb =>
    obtain ⟨n, h⟩ := hbelow b rfl b (List.mem_cons_of_mem _ hb)
    exact absurd h (hacyclic b n)
  | case3 seen tree b hb hl =>
    have hitem : Ref.declaration b ≠ .declaration a := fun heq =>
      hne (hbelow b rfl) (Ref.declaration.inj heq)
    rw [occurrences_node, occurrencesAll_singleton, if_neg hitem, Nat.add_zero]
    refine ⟨le_rfl, iff_of_true rfl fun n c l habove hc => ?_⟩
    cases habove with
    | here => exact absurd (hl.symm.trans hc) (by simp)
    | up hparent _ => exact absurd hparent (by simp [hl])
  | case4 seen tree b hb l hl above hparent =>
    obtain ⟨hle, hstep⟩ := occurrences_above (hchildren b l hl) (hne (hbelow b rfl)) tree
    refine ⟨hle, hstep.trans ⟨fun hstart n c l' habove hc hmem => ?_, fun h hmem => ?_⟩⟩
    · cases habove with
      | here =>
        obtain rfl := Option.some.inj (hl.symm.trans hc)
        exact ⟨rfl, hstart hmem⟩
      | up hnext _ => exact absurd hnext (by simp [hl, hparent])
    · exact (h 0 b l .here hl hmem).2
  | case5 seen tree b hb l hl above parent hparent ih =>
    have hup : (g.links? b).bind Links.parentClass? = some parent := by
      rw [hl, Option.bind_some, hparent]
    have hbelow' : ∀ c, parent = .declaration c → ∀ d ∈ a :: b :: seen,
        ∃ n, Ascent g d (n + 1) c := by
      rintro c rfl d hd
      have hstep := mem_parentsOf_of_parentClass hup
      by_cases hdb : d = b
      · rw [hdb]
        exact ⟨0, .tail .refl hstep⟩
      · have hd' : d ∈ a :: seen := by
          simpa [hdb] using hd
        obtain ⟨n, h⟩ := hbelow b rfl d hd'
        exact ⟨n + 1, .tail h hstep⟩
    obtain ⟨hle, hstep⟩ := occurrences_above (hchildren b l hl) (hne (hbelow b rfl)) tree
    obtain ⟨hle', hrest⟩ := ih hbelow'
    have hitem : above.item ≠ .declaration a := fun heq =>
      hne (hbelow b rfl) (Ref.declaration.inj heq)
    refine ⟨hle.trans hle', fun heq n c l' habove hc hmem => ?_, fun h => ?_⟩
    · have hfirst : above.occurrences a = tree.occurrences a :=
        (hle'.trans_eq heq).antisymm hle
      cases habove with
      | here =>
        obtain rfl := Option.some.inj (hl.symm.trans hc)
        exact ⟨rfl, hstep.mp hfirst hmem⟩
      | up hnext habove =>
        obtain rfl := Option.some.inj (hup.symm.trans hnext)
        exact absurd (hrest.mp (heq.trans hfirst.symm) _ c l' habove hc hmem).2 hitem
    · have hfirst : above.occurrences a = tree.occurrences a :=
        hstep.mpr fun hmem => (h 0 b l .here hl hmem).2
      have hmore : (parentTreeFrom g (b :: seen) parent above).occurrences a =
          above.occurrences a := hrest.mpr fun n c l' habove hc hmem =>
        absurd (h (n + 1) c l' (.up hup habove) hc hmem).1 (Nat.succ_ne_zero n)
      exact hmore.trans hfirst

/-! ## Around a class -/

/-- What lies two or more steps up has a class as a child only if the class implements it. -/
theorem mem_childClasses_of_above (hlinked : LinkedBothWays root g) (hacyclic : Acyclic g)
    (hclass : root.kind? a = some .classType) (hn : 2 ≤ n) (habove : Above g b n (.declaration a))
    (hb : g.links? b = some l) :
    a ∈ l.childClasses ↔ ∃ l', g.links? a = some l' ∧ Ref.declaration b ∈ l'.parentInterfaces := by
  rw [hlinked.mem_childClasses b l hb, mem_parentsOf]
  constructor
  · rintro ⟨-, l', hl', hmem⟩
    rcases List.mem_append.mp hmem with hparent | hmem
    · have hextends : (g.links? a).bind Links.parentClass? = some (.declaration b) := by
        rw [hl', Option.bind_some]
        exact Option.mem_toList.mp hparent
      cases habove with
      | here => omega
      | up hnext habove =>
        -- the parent class would lie above itself
        obtain rfl := Option.some.inj (hextends.symm.trans hnext)
        cases habove with
        | here => omega
        | up hnext habove => exact absurd ((Above.up hnext habove).ascent rfl) (hacyclic b _)
    · exact ⟨l', hl', hmem⟩
  · rintro ⟨l', hl', hmem⟩
    exact ⟨hclass, l', hl', List.mem_append_right _ hmem⟩

/-- In a graph without cycles a class occurs in its class tree, and once unless it implements a type
further up. -/
theorem occurrences_classTree (hlinked : LinkedBothWays root g) (hacyclic : Acyclic g)
    (hclass : root.kind? a = some .classType) :
    0 < (classTree g a).occurrences a ∧
      ((classTree g a).occurrences a = 1 ↔ ¬ ImplementsAncestor g a) := by
  unfold classTree
  dsimp only
  split
  · rename_i parent hparent
    have hbelow : ∀ b, parent = .declaration b → ∀ c ∈ [a], ∃ n, Ascent g c (n + 1) b := by
      rintro b rfl c hc
      obtain rfl := List.mem_singleton.mp hc
      exact ⟨0, .tail .refl (mem_parentsOf_of_parentClass hparent)⟩
    obtain ⟨hle, hiff⟩ := occurrences_parentTreeFrom
      (fun b l hl => (hlinked.nodup_children b l hl).1) hacyclic hbelow
      (childTree g .childClasses (.declaration a))
    rw [occurrences_childTree] at hle hiff
    refine ⟨hle, hiff.trans ⟨?_, fun h n b l habove hb hmem => ?_⟩⟩
    · rintro h ⟨n, b, l, hn, habove, hb, hl, hmem⟩
      obtain ⟨l', hl'⟩ := Option.isSome_iff_exists.mp hb
      have hchild := (mem_childClasses_of_above hlinked hacyclic hclass hn habove hl').mpr
        ⟨l, hl, hmem⟩
      cases habove with
      | here => omega
      | up hnext habove =>
        obtain rfl := Option.some.inj (hparent.symm.trans hnext)
        obtain ⟨rfl, -⟩ := h _ b l' habove hl' hchild
        omega
    · refine ⟨by_contra fun hn => h ?_, item_childTree⟩
      have hup : Above g b (n + 1) (.declaration a) := .up hparent habove
      obtain ⟨l', hl', himplements⟩ :=
        (mem_childClasses_of_above hlinked hacyclic hclass (by omega) hup hb).mp hmem
      exact ⟨n + 1, b, l', by omega, hup, by rw [hb]; rfl, hl', himplements⟩
  · rename_i hparent
    rw [occurrences_childTree]
    refine ⟨Nat.one_pos, iff_of_true rfl ?_⟩
    rintro ⟨n, b, l, hn, habove, -⟩
    cases habove with
    | here => omega
    | up hnext _ => rw [hparent] at hnext; cases hnext

end ApiReference.Inheritance
