import ApiReference.Proofs.Page.MemberRows

/-!
# The tables and details of the members of a type

Rows and details are made member by member and then sorted into their groups.  What is
on the page in the end is said here without the way to it (`MembersShown`): the members
in each table are all those shown for the type that the group is for, each has its row,
and the details of a group have the anchors of its own members, in the same order.
-/

namespace ApiReference.Page

open Declaration Doc Inheritance

variable {env : Env} {file : Text} {a m : Address} {g : Group} {place : Place} {ns : List Node}
variable {ms : List Address} {row : MemberRow} {rows : List MemberRow} {level : HeadingLevel}

/-! ## What is shown -/

/-- What the row of a member shows on the page of a type. -/
structure RowShows (env : Env) (file : Text) (a : Address) (g : Group) (m : Address)
    (row : List (List Node)) : Prop where
  /-- The first cell is the link to the member under its signature. -/
  title : ∃ i, env.root.info? m = some i ∧
    row.head? = some (Node.cell (env.link file m i.title))
  width : row.length = g.columns.length
  /-- Members that are not own ones are said to be inherited. -/
  inherited_iff : rowLabel? row = some "Inherited from " ↔ m ∉ env.root.membersAt a
  /-- Own members are said to go back to what would be inherited of their name. -/
  overriding_iff : rowLabel? row = some "Implements " ∨ rowLabel? row = some "Overrides " ↔
    m ∈ env.root.membersAt a ∧ chainOf env.root env.graph a (env.root.nameAt m) ≠ []
  none_iff : rowLabel? row = none ↔
    m ∈ env.root.membersAt a ∧ chainOf env.root env.graph a (env.root.nameAt m) = []

/-- An anchor and the title of its heading are those of a member. -/
def MarkOf (root : Declaration) (m : Address) (mark : Text × Option Text) : Prop :=
  ∃ i, root.info? m = some i ∧ anchorOf? i = some mark.1 ∧ mark.2 = some i.title

/-- What the table and the details of a group show of the members of a type. -/
structure GroupShown (env : Env) (file : Text) (a : Address) (g : Group) (ms : List Address)
    (rows : List (List (List Node))) (details : List Node) : Prop where
  /-- The members that have rows are those shown for the type that the group is for. -/
  mem_iff : ∀ m, m ∈ ms ↔ IsShown env.root env.graph a m ∧
    ∃ i, env.root.info? m = some i ∧ g.Holds i
  nodup : ms.Nodup
  sorted : ms.Pairwise fun m m' => env.root.nameAt m ≤ env.root.nameAt m'
  rows : List.Forall₂ (RowShows env file a g) ms rows
  /-- The own members have their anchors and headings in the order of their rows. -/
  marks : List.Forall₂ (MarkOf env.root) (ms.filter (· ∈ env.root.membersAt a)) (marks details)
  /-- There are no other anchors, however deep. -/
  anchors : anchors details = (Doc.marks details).map Prod.fst

/-- Nodes under a heading, which is left out if there are none. -/
def under (level : HeadingLevel) (title : Text) (ns : List Node) : List Node :=
  if ns.isEmpty then [] else .heading title level :: ns

/-- A table, which is left out if it has no rows. -/
def tableOf (columns : List Text) (rows : List (List (List Node))) : List Node :=
  if rows.isEmpty then [] else [.table (Node.titles columns) rows]

/-- The page of a type shows the members of each group: first the tables, then the details. -/
def MembersShown (env : Env) (place : Place) (a : Address) (nodes : List Node) : Prop :=
  ∃ (level : HeadingLevel) (ms : Group → List Address) (rows : Group → List (List (List Node)))
    (details : Group → List Node), (level.val : Int) = min (place.level + 1) 5 ∧
    nodes = Group.all.flatMap (fun g => under level g.title (tableOf g.columns (rows g))) ++
      Group.all.flatMap (fun g => under level g.detailsTitle (details g)) ∧
    ∀ g, GroupShown env place.file a g (ms g) (rows g) (details g)

namespace Env

/-! ## One row -/

theorem label_of_ne_inherits {relation : Relation} (h : relation ≠ .inherits) :
    relation.label = "Implements " ∨ relation.label = "Overrides " := by
  cases relation with
  | inherits => exact absurd rfl h
  | fulfils => exact .inl rfl
  | overrides => exact .inr rfl

/-- The first that is inherited of its name is the inherited member that is shown. -/
theorem head?_chainOf (hm : IsShown env.root env.graph a m) (hother : m ∉ env.root.membersAt a) :
    (chainOf env.root env.graph a (env.root.nameAt m)).head? = some m := by
  cases hm with
  | own hown => exact absurd hown hother
  | inherited _ hhead =>
    rw [nameAt_of_mem_chainOf (List.mem_of_mem_head? hhead)]
    exact hhead

/-- The three things that a note can say. -/
theorem rowLabel?_of_listedRow (hm : IsShown env.root env.graph a m)
    (h : env.ListedRow place a m row) :
    (m ∉ env.root.membersAt a ∧ rowLabel? row.cells = some "Inherited from ") ∨
    (m ∈ env.root.membersAt a ∧ chainOf env.root env.graph a (env.root.nameAt m) ≠ [] ∧
      (rowLabel? row.cells = some "Implements " ∨ rowLabel? row.cells = some "Overrides ")) ∨
    (m ∈ env.root.membersAt a ∧ chainOf env.root env.graph a (env.root.nameAt m) = [] ∧
      rowLabel? row.cells = none) := by
  have hnote := h.note
  by_cases hown : m ∈ env.root.membersAt a
  · right
    cases hchain : chainOf env.root env.graph a (env.root.nameAt m) with
    | nil =>
      rw [hchain] at hnote
      exact .inr ⟨hown, rfl, hnote⟩
    | cons parent rest =>
      have hparent : parent ∈ chainOf env.root env.graph a (env.root.nameAt m) := by
        rw [hchain]
        exact List.mem_cons_self ..
      rw [hchain] at hnote
      refine .inl ⟨hown, List.cons_ne_nil _ _, ?_⟩
      rcases label_of_ne_inherits (relation_ne_inherits hown hparent) with hlabel | hlabel
      · exact .inl (hnote.trans (congrArg some hlabel))
      · exact .inr (hnote.trans (congrArg some hlabel))
  · left
    rw [head?_chainOf hm hown, Option.map_some, relation_self] at hnote
    exact ⟨hown, hnote⟩

theorem ne_of_overriding {label? : Option Text}
    (h : label? = some "Implements " ∨ label? = some "Overrides ") :
    label? ≠ some "Inherited from " ∧ label? ≠ none := by
  rcases h with rfl | rfl
  · exact ⟨by decide, nofun⟩
  · exact ⟨by decide, nofun⟩

theorem rowShows_of_listedRow (hm : IsShown env.root env.graph a m)
    (h : env.ListedRow place a m row) : RowShows env place.file a row.group m row.cells := by
  rcases rowLabel?_of_listedRow hm h with ⟨hown, hlabel⟩ | ⟨hown, hchain, hlabel⟩ |
    ⟨hown, hchain, hlabel⟩
  · refine ⟨h.title, h.width, iff_of_true hlabel hown, ?_, ?_⟩
    · exact iff_of_false (fun hother => (ne_of_overriding hother).1 hlabel) fun h => hown h.1
    · exact iff_of_false (fun hnone => nomatch hlabel.symm.trans hnone) fun h => hown h.1
  · obtain ⟨hinherited, hnone⟩ := ne_of_overriding hlabel
    refine ⟨h.title, h.width, ?_, iff_of_true hlabel ⟨hown, hchain⟩, ?_⟩
    · exact iff_of_false hinherited (not_not_intro hown)
    · exact iff_of_false hnone fun h => hchain h.2
  · refine ⟨h.title, h.width, ?_, ?_, iff_of_true hlabel ⟨hown, hchain⟩⟩
    · exact iff_of_false (fun hother => nomatch hlabel.symm.trans hother) (not_not_intro hown)
    · exact iff_of_false (fun hother => (ne_of_overriding hother).2 hlabel) fun h => h.2 hchain

/-- The anchors in the details of some members are those of the own ones. -/
theorem marks_details (h : List.Forall₂ (env.ListedRow place a) ms rows) :
    List.Forall₂ (MarkOf env.root) (ms.filter (· ∈ env.root.membersAt a))
      (marks (rows.flatMap MemberRow.details)) ∧
    anchors (rows.flatMap MemberRow.details) =
      (marks (rows.flatMap MemberRow.details)).map Prod.fst := by
  induction h with
  | nil => exact ⟨.nil, rfl⟩
  | @cons m row ms rows hrow _ ih =>
    obtain ⟨hmarks, hanchors⟩ := ih
    have hdetails := hrow.details
    rw [List.flatMap_cons, anchors_append, hanchors]
    -- own members start with their anchor and heading, all others have no details
    by_cases hown : m ∈ env.root.membersAt a
    · rw [List.contains_iff_mem.mpr hown, if_pos rfl] at hdetails
      obtain ⟨i, hi, id, level, rest, hid, heq, hrest⟩ := hdetails
      rw [heq, marks_block hrest, anchors_block hrest, List.filter_cons,
        if_pos (decide_eq_true hown)]
      exact ⟨.cons ⟨i, hi, hid, rfl⟩ hmarks, rfl⟩
    · rw [if_neg (mt List.contains_iff_mem.mp hown)] at hdetails
      rw [hdetails, List.filter_cons, if_neg (mt of_decide_eq_true hown)]
      exact ⟨hmarks, rfl⟩

/-! ## Groups -/

theorem groupAt?_eq_some_iff {root : Declaration} :
    groupAt? root m = some g ↔ ∃ i, root.info? m = some i ∧ g.Holds i := by
  simp only [groupAt?, Option.bind_eq_some_iff, Group.of?_eq_some_iff]

/-- The members of a group that are shown for a type, in order. -/
def groupMembers (env : Env) (a : Address) (g : Group) : List Address :=
  (tabled env.root (shownMembers env.root env.graph a)).filter
    fun m => groupAt? env.root m == some g

theorem mem_groupMembers : m ∈ env.groupMembers a g ↔ IsShown env.root env.graph a m ∧
    ∃ i, env.root.info? m = some i ∧ g.Holds i := by
  simp only [groupMembers, tabled, List.mem_filter, mem_shownMembers, beq_iff_eq, and_assoc,
    ← groupAt?_eq_some_iff]
  constructor
  · rintro ⟨hshown, -, hgroup⟩
    exact ⟨hshown, hgroup⟩
  · rintro ⟨hshown, hgroup⟩
    exact ⟨hshown, hgroup ▸ rfl, hgroup⟩

theorem sublist_groupMembers (env : Env) (a : Address) (g : Group) :
    (env.groupMembers a g).Sublist (shownMembers env.root env.graph a) :=
  List.filter_sublist.trans List.filter_sublist

/-- The rows of a group are those of its members, in the same order. -/
theorem forall₂_group (h : List.Forall₂ (env.ListedMade place a)
    (tabled env.root (shownMembers env.root env.graph a)) rows) (g : Group) :
    List.Forall₂ (env.ListedMade place a) (env.groupMembers a g)
      (rows.filter (·.group == g)) := by
  refine List.rel_filter ?_ h
  intro m row hrow
  show (groupAt? env.root m == some g) = true ↔ (row.group == g) = true
  rw [beq_iff_eq, beq_iff_eq, hrow.groupAt?_eq, Option.some_inj]

theorem groupShown (hread : env.root.Everywhere ReadComment)
    (h : List.Forall₂ (env.ListedMade place a)
      (tabled env.root (shownMembers env.root env.graph a)) rows) (g : Group) :
    GroupShown env place.file a g (env.groupMembers a g)
      ((rows.filter (·.group == g)).map MemberRow.cells)
      ((rows.filter (·.group == g)).flatMap MemberRow.details) := by
  have hgroup := (forall₂_group h g).imp fun _ _ => listedRow_of_made hread
  obtain ⟨hmarks, hanchors⟩ := marks_details hgroup
  refine ⟨fun m => mem_groupMembers, ?_, ?_, ?_, hmarks, hanchors⟩
  · exact (nodup_shownMembers env.root env.graph a).sublist (sublist_groupMembers env a g)
  · exact (pairwise_shownMembers env.root env.graph a).sublist (sublist_groupMembers env a g)
  · have hlisted : ∀ m ∈ env.groupMembers a g, IsShown env.root env.graph a m ∧
        groupAt? env.root m = some g := by
      intro m hm
      rw [groupAt?_eq_some_iff]
      exact mem_groupMembers.mp hm
    have hrows := (List.forall₂_and_left _ _).mpr ⟨hlisted, hgroup⟩
    refine List.forall₂_map_right_iff.mpr (hrows.imp ?_)
    rintro m row ⟨⟨hshown, hat⟩, hrow⟩
    obtain rfl := Option.some.inj (hat.symm.trans hrow.group)
    exact rowShows_of_listedRow hshown hrow

/-! ## The page -/

theorem heading_eq (title : Text) (hlevel : (level.val : Int) = min (place.level + 1) 5) :
    heading place title 1 = .ok (.heading title level) := by
  have hbounds : 1 ≤ (level.val : Int) ∧ (level.val : Int) ≤ 5 :=
    ⟨Int.ofNat_le.mpr level.one_le, Int.ofNat_le.mpr level.le_five⟩
  have hof : HeadingLevel.ofInt? level.val = some level := by
    rw [HeadingLevel.ofInt?, dif_pos hbounds]
    rfl
  unfold heading
  rw [← hlevel]
  simp only [hof]

theorem ensures_titled_eq (title : Text) (hlevel : (level.val : Int) = min (place.level + 1) 5)
    (ns : List Node) : Ensures (env.titled place title ns) (· = .heading title level :: ns) := by
  unfold titled
  rw [heading_eq title hlevel, Except.ok_bind]
  refine (ensures_permit rfl).bind ?_
  rintro _ rfl
  refine (ensures_permit rfl).bind ?_
  rintro _ rfl
  exact .pure rfl

theorem ensures_tableUnder (title : Text) (hlevel : (level.val : Int) = min (place.level + 1) 5)
    (columns : List Text) (rows : List (List (List Node))) :
    Ensures (env.tableUnder place title columns rows)
      (· = under level title (tableOf columns rows)) := by
  unfold tableUnder tableOf
  split
  · exact .pure rfl
  · exact ensures_titled_eq title hlevel _

theorem ensures_groupTables (hlevel : (level.val : Int) = min (place.level + 1) 5)
    (rows : List MemberRow) (gs : List Group) :
    Ensures (env.groupTables place rows gs) (· = gs.flatMap fun g => under level g.title
      (tableOf g.columns ((rows.filter (·.group == g)).map MemberRow.cells))) := by
  induction gs with
  | nil => exact .pure rfl
  | cons g gs ih =>
    unfold groupTables
    refine (ensures_tableUnder g.title hlevel g.columns _).bind ?_
    rintro _ rfl
    refine ih.bind ?_
    rintro _ rfl
    exact .pure rfl

theorem ensures_groupDetails (hlevel : (level.val : Int) = min (place.level + 1) 5)
    (rows : List MemberRow) (gs : List Group) :
    Ensures (env.groupDetails place rows gs) (· = gs.flatMap fun g => under level g.detailsTitle
      ((rows.filter (·.group == g)).flatMap MemberRow.details)) := by
  induction gs with
  | nil => exact .pure rfl
  | cons g gs ih =>
    unfold groupDetails
    dsimp only
    rw [List.flatMap_cons, under]
    split
    · refine ih.bind ?_
      rintro _ rfl
      exact .pure rfl
    · refine (ensures_titled_eq g.detailsTitle hlevel _).bind ?_
      rintro _ rfl
      refine ih.bind ?_
      rintro _ rfl
      exact .pure rfl

theorem exists_level (hplace : 1 ≤ place.level) :
    ∃ level : HeadingLevel, (level.val : Int) = min (place.level + 1) 5 :=
  ⟨⟨(min (place.level + 1) 5).toNat, by omega, by omega⟩, by dsimp only; omega⟩

/-- What is built for the members of a type is made of their rows, group by group. -/
theorem ensures_memberTables_made (hlevel : (level.val : Int) = min (place.level + 1) 5)
    (a : Address) : Ensures (env.memberTables place a).outcome fun nodes => ∃ rows,
      List.Forall₂ (env.ListedMade place a) (tabled env.root (shownMembers env.root env.graph a))
        rows ∧
      nodes = Group.all.flatMap (fun g => under level g.title
          (tableOf g.columns ((rows.filter (·.group == g)).map MemberRow.cells))) ++
        Group.all.flatMap fun g => under level g.detailsTitle
          ((rows.filter (·.group == g)).flatMap MemberRow.details) := by
  unfold memberTables
  refine Ensures.bindTraced (ensures_memberRows place fun _ hr => hr) fun rows hrows => ?_
  refine Ensures.bindTraced (ensures_groupTables hlevel rows Group.all) ?_
  rintro _ rfl
  refine Ensures.bindTraced (ensures_groupDetails hlevel rows Group.all) ?_
  rintro _ rfl
  exact .pure ⟨rows, hrows, rfl⟩

/-- What is built for the members of a type shows all of them and nothing else, whatever it is built
with, if the comments of the package are as they are read. -/
theorem ensures_memberTables (hplace : 1 ≤ place.level)
    (hread : env.root.Everywhere ReadComment) (a : Address) :
    Ensures (env.memberTables place a).outcome (MembersShown env place a) := by
  intro nodes hnodes
  obtain ⟨level, hlevel⟩ := exists_level hplace
  obtain ⟨rows, hrows, rfl⟩ := ensures_memberTables_made hlevel a nodes hnodes
  exact ⟨level, env.groupMembers a, _, _, hlevel, rfl, groupShown hread hrows⟩

end Env

end ApiReference.Page
