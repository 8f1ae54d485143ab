import ApiReference.Proofs.Inheritance.Listed
import ApiReference.Proofs.Page.Members
import ApiReference.Proofs.Page.Unmarked

/-!
# The rows of members

Each member that a type lists and that is a method or property has one row, and the rows
come in the order of the members.  A row starts with the link to its member and ends with
the note that tells where the member comes from; the note is found again by looking at
the end of the row alone (`noteLabel?`), since nothing that is read in a comment looks
like one.  The details of an own member start with its anchor and its heading.
-/

namespace ApiReference.Page

open Declaration Doc Inheritance

variable {n : Node} {ns nodes : List Node} {i : Info} {g : Group}

/-! ## Groups -/

/-- What is listed in the table of a group. -/
def Group.Holds : Group → Info → Prop
  | staticEvents, i => i.kind.isProperty = true ∧ i.isEvent = true ∧ i.isStatic = true
  | events, i => i.kind.isProperty = true ∧ i.isEvent = true ∧ i.isStatic = false
  | staticProperties, i => i.kind.isProperty = true ∧ i.isEvent = false ∧ i.isStatic = true
  | properties, i => i.kind.isProperty = true ∧ i.isEvent = false ∧ i.isStatic = false
  | staticMethods, i => i.kind.isMethod = true ∧ i.isStatic = true
  | methods, i => i.kind.isMethod = true ∧ i.isStatic = false

theorem isProperty_of_isMethod {kind : Declaration.Kind} (h : kind.isMethod = true) :
    kind.isProperty = false := by
  cases kind with
  | method | methodSignature => rfl
  | _ => cases h

/-- A member is in the table of a group exactly if the group is for it. -/
theorem Group.of?_eq_some_iff : Group.of? i = some g ↔ g.Holds i := by
  unfold Group.of?
  cases hmethod : i.kind.isMethod with
  | true =>
    have hproperty := isProperty_of_isMethod hmethod
    cases hstatic : i.isStatic <;> cases g <;> simp [Holds, *]
  | false =>
    cases hproperty : i.kind.isProperty <;> cases hevent : i.isEvent <;>
      cases hstatic : i.isStatic <;> cases g <;> simp [Holds, *]

/-- Properties have a column for their type. -/
theorem length_columns (h : Group.of? i = some g) :
    g.columns.length = if i.kind.isMethod then 2 else 3 := by
  unfold Group.of? at h
  split at h
  · rename_i hmethod
    rw [if_pos hmethod]
    split at h <;> cases h <;> rfl
  · rename_i hmethod
    rw [if_neg hmethod]
    split at h
    · split at h <;> cases h <;> rfl
    · cases h

/-- The group of the declaration at an address. -/
def groupAt? (root : Declaration) (a : Address) : Option Group := (root.info? a).bind Group.of?

/-! ## Notes -/

/-- The words of a paragraph in italics that ends with a link. -/
def noteOf? : Node → Option Text
  | .paragraph [.emphasis [.plainText label, .linkTag _ _ _] false true] => some label
  | _ => none

/-- The words of the note at the end of a cell, if there is one. -/
def noteLabel? (cell : List Node) : Option Text := cell.getLast?.bind noteOf?

/-- The words of the note at the end of a row, which is in its last cell. -/
def rowLabel? (row : List (List Node)) : Option Text := row.getLast?.bind noteLabel?

theorem noteOf?_paragraph (h : ∀ n ∈ ns, Comment.IsInline n) :
    noteOf? (.paragraph ns) = none := by
  unfold noteOf?
  split
  · rename_i label reference? url? text? heq
    obtain rfl := Node.paragraph.inj heq
    obtain ⟨hkind, -⟩ := List.forall_mem_singleton.mp h
    exact absurd hkind Bool.false_ne_true
  · rfl

theorem noteOf?_of_isRead (h : Comment.IsRead n) : noteOf? n = none := by
  unfold Comment.IsRead at h
  split at h
  · exact noteOf?_paragraph h
  · rfl
  · exact h.elim

/-- Nodes none of which is a note. -/
abbrev Noteless (ns : List Node) : Prop := ∀ n ∈ ns, noteOf? n = none

theorem noteLabel?_eq_none (h : Noteless ns) : noteLabel? ns = none := by
  refine Option.bind_eq_none_iff.mpr fun n hn => ?_
  exact h n (List.mem_of_getLast? hn)

namespace Env

variable {env : Env} {file : Text} {a m : Address} {parents as : List Address} {place : Place}
variable {row : MemberRow} {rows : List MemberRow}

/-- What the note of a member says is found at the end of whatever it follows. -/
theorem noteLabel?_inheritanceNote (env : Env) (file : Text) (a : Address) (parents : List Address)
    (h : Noteless ns) : noteLabel? (ns ++ env.inheritanceNote file a parents) =
      parents.head?.map fun parent => (relation env.root a parent).label := by
  cases parents with
  | nil =>
    show noteLabel? (ns ++ []) = none
    rw [List.append_nil, noteLabel?_eq_none h]
  | cons parent rest =>
    show (ns ++ [_]).getLast?.bind noteOf? = _
    rw [List.getLast?_concat]
    rfl

/-- A summary is no note, nor is it one behind the mark of what may still change. -/
theorem noteless_follow (i : Info) (h : ∀ n ∈ ns, Comment.IsRead n) :
    Noteless (follow (stageMark i) ns) := by
  have hread : Noteless ns := fun n hn => noteOf?_of_isRead (h n hn)
  have hline : ∀ inner, (∀ n ∈ inner, Comment.IsInline n) →
      Noteless (paragraphOf (stageMark i ++ inner)) := by
    intro inner hinner
    unfold paragraphOf
    split
    · exact List.forall_mem_nil _
    · refine List.forall_mem_singleton.mpr ?_
      unfold stageMark
      split
      · rfl
      · exact noteOf?_paragraph hinner
  unfold follow
  split
  · obtain ⟨hinner, -⟩ := List.forall_mem_cons.mp h
    obtain ⟨-, hrest⟩ := List.forall_mem_cons.mp hread
    exact List.forall_mem_append.mpr ⟨hline _ hinner, hrest⟩
  · have hmark := hline [] (List.forall_mem_nil _)
    rw [List.append_nil] at hmark
    exact List.forall_mem_append.mpr ⟨hmark, hread⟩

/-- The note at the end of a description tells how the member goes back to the nearest declaration
that it goes back to. -/
theorem ensures_descriptionCell_note (file : Text) (hread : env.root.Everywhere ReadComment)
    (hi : env.root.info? a = some i) (parents : List Address) :
    Ensures (env.descriptionCell file a i parents) fun cell => noteLabel? cell =
      parents.head?.map fun parent => (relation env.root a parent).label := by
  intro cell hcell
  rw [ensures_descriptionCell_eq env file a i parents cell hcell]
  have hsummary := isRead_summary (of_mem_comments hread parents hi)
  exact noteLabel?_inheritanceNote env file a parents (noteless_follow i hsummary)

/-! ## Rows -/

/-- The details of a member: its anchor, its heading, and then no anchor any more. -/
def DetailsOf (i : Info) (details : List Node) : Prop :=
  ∃ id level rest, anchorOf? i = some id ∧
    details = .anchor id :: .heading i.title level :: rest ∧ Anchorless rest

/-- What the row of a member shows, given what it goes back to and whether it is an own one. -/
structure RowOf (env : Env) (place : Place) (own : Bool) (parents : List Address) (m : Address)
    (row : MemberRow) : Prop where
  group : groupAt? env.root m = some row.group
  title : ∃ i, env.root.info? m = some i ∧
    row.cells.head? = some (Node.cell (env.link place.file m i.title))
  width : row.cells.length = row.group.columns.length
  note : rowLabel? row.cells =
    parents.head?.map fun parent => (relation env.root m parent).label
  unmarked : ∀ cell ∈ row.cells, Anchorless cell
  details : if own then ∃ i, env.root.info? m = some i ∧ DetailsOf i row.details
    else row.details = []

theorem exists_anchorOf? (hkind : i.kind.isMethod = true ∨ i.kind.isProperty = true) :
    ∃ id, anchorOf? i = some id := by
  unfold anchorOf? categoryMark?
  rcases hkind with hmethod | hproperty
  · rw [hmethod]
    exact ⟨_, rfl⟩
  · rw [hproperty]
    split
    · exact ⟨_, rfl⟩
    · exact ⟨_, rfl⟩

/-- The details of a member are its anchor, its heading, and what is said about it. -/
theorem ensures_memberDetails_body (env : Env) (place : Place) (a : Address) (i : Info)
    (parents : List Address) : Ensures (env.memberDetails place a i parents).outcome
      fun details => ∃ level body,
        details = .anchor ((anchorOf? i).getD []) :: .heading i.title level :: body ∧
        (env.memberBody ⟨place.file, min (place.level + 2) 5⟩ a i parents).outcome = .ok body := by
  unfold memberDetails
  refine Ensures.bindTraced (ensures_permit rfl) ?_
  rintro _ rfl
  refine Ensures.bindTraced (ensures_heading place i.title 2) ?_
  rintro _ ⟨level, rfl⟩
  refine Ensures.bindTraced (ensures_permit rfl) ?_
  rintro _ rfl
  exact Ensures.bindTraced (fun _ h => h) fun body hbody => .pure ⟨level, body, rfl, hbody⟩

theorem ensures_memberDetails (place : Place) (hread : env.root.Everywhere ReadComment)
    (hi : env.root.info? a = some i) (parents : List Address)
    (hkind : i.kind.isMethod = true ∨ i.kind.isProperty = true) :
    Ensures (env.memberDetails place a i parents).outcome (DetailsOf i) := by
  intro details hdetails
  obtain ⟨id, hid⟩ := exists_anchorOf? hkind
  obtain ⟨level, body, rfl, hbody⟩ := ensures_memberDetails_body env place a i parents _ hdetails
  rw [hid]
  exact ⟨id, level, body, hid, rfl, ensures_memberBody _ hread hi parents hkind body hbody⟩

/-- The cells of a member: its link, its type if it is a property, and what is said about it. -/
theorem ensures_memberCells (file : Text) (hread : env.root.Everywhere ReadComment)
    (hi : env.root.info? a = some i) (parents : List Address) (hgroup : Group.of? i = some g) :
    Ensures (env.memberCells file a i parents).outcome fun cells =>
      cells.head? = some (Node.cell (env.link file a i.title)) ∧
      cells.length = g.columns.length ∧ rowLabel? cells =
        parents.head?.map (fun parent => (relation env.root a parent).label) ∧
      ∀ cell ∈ cells, Anchorless cell := by
  have hdescription : Ensures (env.descriptionCell file a i parents) fun cell =>
      noteLabel? cell = parents.head?.map (fun parent => (relation env.root a parent).label) ∧
        Anchorless cell := fun cell hcell =>
    ⟨ensures_descriptionCell_note file hread hi parents cell hcell,
      ensures_descriptionCell file hread hi parents cell hcell⟩
  have htitle : Anchorless (env.titleCell file a i) := anchorless_cell (unmarked_link env file a _)
  have hcolumns := length_columns hgroup
  unfold memberCells
  dsimp only
  split
  · rename_i hmethod
    rw [if_pos hmethod] at hcolumns
    refine Ensures.bindTraced hdescription fun _ ⟨hnote, hunmarked⟩ => .pure ?_
    refine ⟨rfl, hcolumns.symm, hnote, List.forall_mem_cons.mpr ⟨htitle, ?_⟩⟩
    exact List.forall_mem_singleton.mpr hunmarked
  · rename_i hmethod
    rw [if_neg hmethod] at hcolumns
    refine Ensures.bindTraced (ensures_typeCell env file a i.name i.valueType) fun _ htype => ?_
    refine Ensures.bindTraced hdescription fun _ ⟨hnote, hunmarked⟩ => .pure ?_
    refine ⟨rfl, hcolumns.symm, hnote, List.forall_mem_cons.mpr ⟨htitle, ?_⟩⟩
    exact List.forall_mem_cons.mpr ⟨htype, List.forall_mem_singleton.mpr hunmarked⟩

/-- The declarations among some that are in a table. -/
def tabled (root : Declaration) (ms : List Address) : List Address :=
  ms.filter fun m => (groupAt? root m).isSome

theorem tabled_append (root : Declaration) (ms ms' : List Address) :
    tabled root (ms ++ ms') = tabled root ms ++ tabled root ms' := List.filter_append ..

theorem tabled_of_none {root : Declaration} (h : groupAt? root m = none) :
    tabled root [m] = [] := by
  rw [tabled, List.filter_singleton, h]
  rfl

theorem tabled_of_some {root : Declaration} (h : groupAt? root m = some g) :
    tabled root [m] = [m] := by
  rw [tabled, List.filter_singleton, h]
  rfl

/-- A row is what is made for a member that is in a table; it has details if the member is an own
one. -/
def RowMade (env : Env) (place : Place) (own : Bool) (parents : List Address) (m : Address)
    (row : MemberRow) : Prop :=
  ∃ i, env.root.info? m = some i ∧ Group.of? i = some row.group ∧
    (env.memberCells place.file m i parents).outcome = .ok row.cells ∧
    if own then (env.memberDetails place m i parents).outcome = .ok row.details
    else row.details = []

theorem RowMade.groupAt?_eq {own : Bool} (h : env.RowMade place own parents m row) :
    groupAt? env.root m = some row.group := by
  obtain ⟨i, hi, hgroup, -⟩ := h
  rw [groupAt?, hi]
  exact hgroup

/-- A method or property has a row, and nothing else has one. -/
theorem ensures_memberRow? (env : Env) (place : Place) (own : Bool) (m : Address)
    (parents : List Address) : Ensures (env.memberRow? place own m parents).outcome fun row? =>
      List.Forall₂ (env.RowMade place own parents) (tabled env.root [m]) row?.toList := by
  unfold memberRow?
  split
  · rename_i hnone
    have hgroup : groupAt? env.root m = none := by
      rw [groupAt?, hnone]
      rfl
    refine .pure ?_
    rw [tabled_of_none hgroup]
    exact .nil
  · rename_i i hi
    have hat : groupAt? env.root m = Group.of? i := by
      rw [groupAt?, hi]
      rfl
    split
    · rename_i hnone
      refine .pure ?_
      rw [tabled_of_none (hat.trans hnone)]
      exact .nil
    · rename_i group hgroup
      rw [tabled_of_some (hat.trans hgroup)]
      refine Ensures.bindTraced (fun _ hcells => hcells) fun cells hcells => ?_
      cases own with
      | true =>
        refine Ensures.bindTraced (fun _ hdetails => hdetails) fun details hdetails => ?_
        exact .pure (.cons ⟨i, hi, hgroup, hcells, hdetails⟩ .nil)
      | false => exact .pure (.cons ⟨i, hi, hgroup, hcells, rfl⟩ .nil)

theorem ensures_memberRowsOf (env : Env) (place : Place) (own : Bool)
    (parents ms : List Address) : Ensures (env.memberRowsOf place own parents ms).outcome
      (List.Forall₂ (env.RowMade place own parents) (tabled env.root ms)) := by
  induction ms with
  | nil => exact .pure .nil
  | cons m ms ih =>
    unfold memberRowsOf
    refine Ensures.bindTraced (ensures_memberRow? env place own m parents) fun _ hrow => ?_
    refine Ensures.bindTraced ih fun _ hrows => .pure ?_
    rw [← List.singleton_append, tabled_append]
    exact List.rel_append hrow hrows

theorem rowOf_of_made {own : Bool} (hread : env.root.Everywhere ReadComment)
    (h : env.RowMade place own parents m row) : env.RowOf place own parents m row := by
  have hat := h.groupAt?_eq
  obtain ⟨i, hi, hgroup, hcells, hdetails⟩ := h
  obtain ⟨htitle, hwidth, hnote, hunmarked⟩ :=
    ensures_memberCells place.file hread hi parents hgroup _ hcells
  refine ⟨hat, ⟨i, hi, htitle⟩, hwidth, hnote, hunmarked, ?_⟩
  cases own with
  | true =>
    exact ⟨i, hi, ensures_memberDetails place hread hi parents (kind_of_group hgroup) _ hdetails⟩
  | false => exact hdetails

/-! ## The rows of a type -/

/-- What the row of a member on the page of a type shows. -/
def ListedRow (env : Env) (place : Place) (a m : Address) (row : MemberRow) : Prop :=
  env.RowOf place ((env.root.membersAt a).contains m)
    (chainOf env.root env.graph a (env.root.nameAt m)) m row

/-- The row of a member on the page of a type, as it is made. -/
def ListedMade (env : Env) (place : Place) (a m : Address) (row : MemberRow) : Prop :=
  env.RowMade place ((env.root.membersAt a).contains m)
    (chainOf env.root env.graph a (env.root.nameAt m)) m row

theorem listedRow_of_made (hread : env.root.Everywhere ReadComment)
    (h : env.ListedMade place a m row) : env.ListedRow place a m row :=
  rowOf_of_made hread h

theorem resolvedRows_eq (env : Env) (place : Place) (r : Resolved) : env.resolvedRows place r =
    env.memberRowsOf place (!r.own.isEmpty) r.parents r.listed := by
  unfold resolvedRows Resolved.listed
  split
  · rename_i hempty
    rw [hempty]
    rfl
  · rename_i hown
    rw [Bool.eq_false_of_not_eq_true hown]
    rfl

theorem ensures_resolvedRows (place : Place) {r : Resolved}
    (hr : r ∈ resolvedMembers env.root env.graph a) :
    Ensures (env.resolvedRows place r).outcome
      (List.Forall₂ (env.ListedMade place a) (tabled env.root r.listed)) := by
  intro rows hrows
  rw [resolvedRows_eq] at hrows
  have hall := ensures_memberRowsOf env place _ _ _ rows hrows
  have hlisted : ∀ m ∈ tabled env.root r.listed,
      r.parents = chainOf env.root env.graph a (env.root.nameAt m) ∧
        (!r.own.isEmpty) = (env.root.membersAt a).contains m := by
    intro m hm
    obtain ⟨-, hparents, hown⟩ := of_mem_listed hr (List.mem_of_mem_filter hm)
    refine ⟨hparents, ?_⟩
    by_cases hmember : m ∈ env.root.membersAt a
    · rw [List.contains_iff_mem.mpr hmember,
        Bool.eq_false_of_not_eq_true (mt hown.mp (not_not_intro hmember))]
      rfl
    · rw [Bool.eq_false_of_not_eq_true (mt List.contains_iff_mem.mp hmember), hown.mpr hmember]
      rfl
  refine ((List.forall₂_and_left _ _).mpr ⟨hlisted, hall⟩).imp ?_
  rintro m row ⟨⟨hparents, hown⟩, hrow⟩
  rw [hparents, hown] at hrow
  exact hrow

theorem ensures_memberRows (place : Place) {rs : List Resolved}
    (hrs : ∀ r ∈ rs, r ∈ resolvedMembers env.root env.graph a) :
    Ensures (env.memberRows place rs).outcome
      (List.Forall₂ (env.ListedMade place a) (tabled env.root (rs.flatMap Resolved.listed))) := by
  induction rs with
  | nil => exact .pure .nil
  | cons r rs ih =>
    obtain ⟨hr, hrs⟩ := List.forall_mem_cons.mp hrs
    unfold memberRows
    refine Ensures.bindTraced (ensures_resolvedRows place hr) fun _ hfirst => ?_
    refine Ensures.bindTraced (ih hrs) fun _ hmore => .pure ?_
    rw [List.flatMap_cons, tabled_append]
    exact List.rel_append hfirst hmore

end Env

end ApiReference.Page
