import ApiReference.Markdown.Link
import ApiReference.Proofs.Doc.Sound

/-!
# Putting links in place of references

A sound tree stays sound when its references are replaced by links, and nothing in it
stops that.  The links in it then lead where those of the tree led before or where
the resolver says.
-/

namespace ApiReference.Markdown

open Doc Node Grammar

variable {leads : Text → Prop} {resolver? : Option Resolver} {n : Node} {ns : List Node}
variable {cells : List (List Node)} {rows : List (List (List Node))} {parent : Kind}

/-- A text, link, heading or anchor of a page: code can be fenced with its language, and a link
leads where it should. -/
def PageLeaf (leads : Text → Prop) : Node → Prop
  | .fencedCode _ language => opensFence language = true
  | .linkTag _ (some url) _ => leads url
  | _ => True

theorem PageLeaf.mono {leads' : Text → Prop} (h : ∀ url, leads url → leads' url)
    (hn : PageLeaf leads n) : PageLeaf leads' n := by
  cases n with
  | linkTag reference? url? text? =>
    cases url? with
    | none => trivial
    | some url => exact h url hn
  | fencedCode code language => exact hn
  | _ => trivial

/-- What a resolver finds leads where links should lead. -/
def Finds (resolver? : Option Resolver) (leads : Text → Prop) : Prop :=
  ∀ resolver ∈ resolver?, ∀ reference target, resolver reference = .ok target →
    ∀ file ∈ target.file?, leads file

/-- A step of the walk ends with a value of which something is known, inside tables and outside. -/
def Goes {α : Type} (x : Walk α) (P : α → Prop) : Prop :=
  ∀ insideTable, Yields ((x.run insideTable).outcome) fun found => P found.1

theorem Goes.pure {α : Type} {P : α → Prop} {a : α} (h : P a) : Goes (pure a : Walk α) P :=
  fun _ => ⟨_, rfl, h⟩

theorem Goes.bind {α β : Type} {x : Walk α} {f : α → Walk β} {P : α → Prop} {Q : β → Prop}
    (hx : Goes x P) (hf : ∀ a, P a → Goes (f a) Q) : Goes (x >>= f) Q := by
  intro insideTable
  rw [StateT.run_bind, Traced.outcome_bind]
  exact (hx insideTable).bind fun found hfound => hf found.1 hfound found.2

theorem Goes.set (insideTable : Bool) : Goes (set insideTable : Walk PUnit) fun _ => True :=
  fun _ => ⟨_, rfl, trivial⟩

theorem Goes.noted {α : Type} {P : α → Prop} {x : Noted α} (h : P x.value) :
    Goes (liftM x : Walk α) P :=
  fun _ => ⟨_, rfl, h⟩

/-! ## One reference -/

/-- A link that is written as nothing, or one that leads where it should. -/
def LinkOrNothing (leads : Text → Prop) (n : Node) : Prop :=
  n = deadLink ∨ ∃ file label, leads file ∧ n = .link file label

theorem linkTo_value (reference : Text) (label? : Option Text) {target : Target}
    (h : ∀ file ∈ target.file?, leads file) :
    LinkOrNothing leads (linkTo reference label? target).value := by
  unfold linkTo
  split
  · exact .inl rfl
  · exact .inl rfl
  · rename_i file _ hfile
    have hlink : ∀ label : Text, LinkOrNothing leads
        (if label.isEmpty then do
          Noted.note (.noLinkText reference)
          return deadLink
        else return .link file label : Noted Node).value := by
      intro label
      split
      · exact .inl rfl
      · exact .inr ⟨file, label, h file hfile, rfl⟩
    split
    · exact hlink _
    · exact hlink _
    · exact hlink _

/-- A reference becomes a link to what it leads to, or nothing. -/
theorem resolveLink_value (h : Finds resolver? leads) (reference : Text) (label? : Option Text) :
    LinkOrNothing leads (resolveLink resolver? reference label?).value := by
  unfold resolveLink
  split
  · exact .inl rfl
  · rename_i resolver
    split
    · exact .inl rfl
    · rename_i target ht
      exact linkTo_value reference label? (h resolver rfl reference target ht)

/-! ## Trees -/

/-- A node of the kind there was, which is sound. -/
def Replaces (leads : Text → Prop) (n found : Node) : Prop :=
  found.kind = n.kind ∧ Sound (PageLeaf leads) found

theorem LinkOrNothing.replaces {reference? url? text? : Option Text}
    (h : LinkOrNothing leads n) : Replaces leads (.linkTag reference? url? text?) n := by
  obtain rfl | ⟨file, label, hfile, rfl⟩ := h
  · exact ⟨rfl, .leaf rfl trivial⟩
  · exact ⟨rfl, .leaf rfl hfile⟩

theorem goes_checkFence {language : Json} (h : opensFence language = true) :
    Goes (checkFence language) fun _ => True := by
  intro insideTable
  simp only [checkFence, h, Bool.not_true, Bool.and_false, Bool.false_eq_true, if_false]
  exact ⟨_, rfl, trivial⟩

/-- A text stays, and a reference is replaced. -/
theorem goes_leaf (h : Finds resolver? leads) (hleaf : n.isLeaf = true)
    (hn : PageLeaf leads n) : Goes (resolveLinks resolver? n) (Replaces leads n) := by
  have hstays : Replaces leads n n := ⟨rfl, .leaf hleaf hn⟩
  cases n with
  | paragraph _ | body _ | list _ | emphasis _ _ _ | noteBox _ | tableCell _ | tableRow _
  | table _ _ => cases hleaf
  | linkTag reference? url? text? =>
    unfold resolveLinks
    match reference? with
    | some (c :: reference) =>
      exact Goes.noted (resolveLink_value h (c :: reference) text?).replaces
    | some [] => exact .pure hstays
    | none => exact .pure hstays
  | fencedCode code language =>
    unfold resolveLinks
    exact (goes_checkFence hn).bind fun _ _ => .pure hstays
  | _ => exact .pure hstays

theorem goes_all {parent : Kind} (ha : ∀ n ∈ ns, standard.allows parent n.kind = true)
    (hs : ∀ n ∈ ns, Goes (resolveLinks resolver? n) (Replaces leads n)) :
    Goes (resolveAll resolver? ns) (Fit (PageLeaf leads) parent) := by
  induction ns with
  | nil => exact .pure Fit.nil
  | cons n ns ih =>
    obtain ⟨han, hans⟩ := List.forall_mem_cons.mp ha
    obtain ⟨hsn, hsns⟩ := List.forall_mem_cons.mp hs
    rw [resolveAll]
    refine hsn.bind fun found ⟨hkind, hfound⟩ => (ih hans hsns).bind fun rest hrest => .pure ?_
    exact Fit.cons_iff.mpr ⟨⟨hkind ▸ han, hfound⟩, hrest⟩

theorem goes_cells (ha : ∀ c ∈ cells, ∀ n ∈ c, standard.allows .body n.kind = true)
    (hs : ∀ c ∈ cells, ∀ n ∈ c, Goes (resolveLinks resolver? n) (Replaces leads n)) :
    Goes (resolveCells resolver? cells) fun found => ∀ c ∈ found, Fit (PageLeaf leads) .body c := by
  induction cells with
  | nil => exact .pure fun _ h => absurd h List.not_mem_nil
  | cons c cs ih =>
    obtain ⟨hac, hacs⟩ := List.forall_mem_cons.mp ha
    obtain ⟨hsc, hscs⟩ := List.forall_mem_cons.mp hs
    rw [resolveCells]
    refine (goes_all hac hsc).bind fun found hfound => (ih hacs hscs).bind fun rest hrest =>
      .pure ?_
    exact List.forall_mem_cons.mpr ⟨hfound, hrest⟩

theorem goes_rows (ha : ∀ r ∈ rows, ∀ c ∈ r, ∀ n ∈ c, standard.allows .body n.kind = true)
    (hs : ∀ r ∈ rows, ∀ c ∈ r, ∀ n ∈ c, Goes (resolveLinks resolver? n) (Replaces leads n)) :
    Goes (resolveRows resolver? rows) fun found =>
      ∀ r ∈ found, ∀ c ∈ r, Fit (PageLeaf leads) .body c := by
  induction rows with
  | nil => exact .pure fun _ h => absurd h List.not_mem_nil
  | cons r rs ih =>
    obtain ⟨har, hars⟩ := List.forall_mem_cons.mp ha
    obtain ⟨hsr, hsrs⟩ := List.forall_mem_cons.mp hs
    rw [resolveRows]
    refine (goes_cells har hsr).bind fun found hfound => (ih hars hsrs).bind fun rest hrest =>
      .pure ?_
    exact List.forall_mem_cons.mpr ⟨hfound, hrest⟩

/-- Nothing in a sound tree stops the walk, and the tree stays sound. -/
theorem goes_resolveLinks (h : Finds resolver? leads) (hn : Sound (PageLeaf leads) n) :
    Goes (resolveLinks resolver? n) (Replaces leads n) := by
  induction hn with
  | leaf hleaf hn => exact goes_leaf h hleaf hn
  | paragraph ha _ ih =>
    exact (goes_all ha ih).bind fun _ hfit => .pure ⟨rfl, Sound.paragraph_iff.mpr hfit⟩
  | body ha _ ih =>
    exact (goes_all ha ih).bind fun _ hfit => .pure ⟨rfl, Sound.body_iff.mpr hfit⟩
  | list ha _ ih =>
    exact (goes_all ha ih).bind fun _ hfit => .pure ⟨rfl, Sound.list_iff.mpr hfit⟩
  | emphasis ha _ ih =>
    exact (goes_all ha ih).bind fun _ hfit => .pure ⟨rfl, Sound.emphasis_iff.mpr hfit⟩
  | noteBox ha _ ih =>
    exact (goes_all ha ih).bind fun _ hfit => .pure ⟨rfl, Sound.noteBox_iff.mpr hfit⟩
  | table ha _ ih =>
    obtain ⟨haheader, harows⟩ := List.forall_mem_cons.mp ha
    obtain ⟨hheader, hrows⟩ := List.forall_mem_cons.mp ih
    rw [resolveLinks]
    refine (Goes.set true).bind fun _ _ => (goes_cells haheader hheader).bind fun header hh =>
      (goes_rows harows hrows).bind fun rows hr => (Goes.set false).bind fun _ _ => .pure ?_
    exact ⟨rfl, Sound.table_iff.mpr (List.forall_mem_cons.mpr ⟨hh, hr⟩)⟩

/-- A sound tree can be written, and its links then lead where they should. -/
theorem yields_linked (h : Finds resolver? leads) (hn : Sound (PageLeaf leads) n) :
    Yields (linked resolver? n).outcome (Sound (PageLeaf leads)) := by
  rw [linked, StateT.run'_eq, map_eq_pure_bind, Traced.outcome_bind]
  exact (goes_resolveLinks h hn false).bind fun found hfound => .pure hfound.2

end ApiReference.Markdown
