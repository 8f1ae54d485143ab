import ApiReference.Page.Members
import ApiReference.Proofs.Page.Body

/-!
# The members of a type are all on its page

The tables of a class or interface and the details of its own members can be built
and fit on its page.  Every own method and property has its anchor there
(`Marked`): it has a row, the row has its details, and the details of every group
are put on the page.
-/

namespace ApiReference.Page

open Declaration Doc Inheritance

namespace Env

variable {env : Env} {file id : Text} {ns ns' : List Node} {a : Address} {i : Info}
variable {parents as : List Address} {place : Place} {row : MemberRow} {rows : List MemberRow}
variable {rs : List Resolved}

/-- Each method and property among some declarations has its anchor among some nodes. -/
def Marked (env : Env) (as : List Address) (ns : List Node) : Prop :=
  ∀ a ∈ as, ∀ i, env.root.info? a = some i → ∀ id, anchorOf? i = some id → Node.anchor id ∈ ns

theorem Marked.mono (h : env.Marked as ns) (hns : ∀ n ∈ ns, n ∈ ns') : env.Marked as ns' :=
  fun a ha i hi id hid => hns _ (h a ha i hi id hid)

/-- A row whose cells and details fit on the page at a path. -/
def RowFits (env : Env) (file : Text) (row : MemberRow) : Prop :=
  (∀ c ∈ row.cells, env.OnPage file c) ∧ env.OnPage file row.details

/-! ## One member -/

/-- Only methods and properties have anchors. -/
theorem anchorOf?_eq_none (hmethod : i.kind.isMethod = false)
    (hproperty : i.kind.isProperty = false) : anchorOf? i = none := by
  rw [anchorOf?, categoryMark?, hmethod, hproperty]
  rfl

/-- What is in no table has no anchor. -/
theorem anchorOf?_of_group (h : Group.of? i = none) : anchorOf? i = none := by
  unfold Group.of? at h
  split at h
  · cases h
  · rename_i hmethod
    split at h
    · cases h
    · rename_i hproperty
      exact anchorOf?_eq_none (Bool.not_eq_true _ ▸ hmethod) (Bool.not_eq_true _ ▸ hproperty)

/-- What is in a table is a method or a property. -/
theorem kind_of_group {group : Group} (h : Group.of? i = some group) :
    i.kind.isMethod = true ∨ i.kind.isProperty = true := by
  unfold Group.of? at h
  split at h
  · exact .inl ‹_›
  · split at h
    · exact .inr ‹_›
    · cases h

theorem hasTables_of_group {group : Group} (h : Group.of? i = some group) : HasTables i.kind :=
  (kind_of_group h).imp_right .inl

/-- The details of a member start with its anchor. -/
theorem Sound.yields_memberDetails (he : env.Sound) (hplace : 1 ≤ place.level)
    (hi : env.root.info? a = some i) (hp : ∀ b ∈ parents, b ∈ env.root.walk)
    (hkind : HasTables i.kind) :
    Yields (env.memberDetails place a i parents).outcome fun details =>
      env.OnPage place.file details ∧ Node.anchor ((anchorOf? i).getD []) ∈ details := by
  have hanchor : env.OnPage place.file [.anchor ((anchorOf? i).getD [])] :=
    Fit.of_leaf rfl rfl trivial
  have hlevel : 1 ≤ min (place.level + 2) 5 := by
    omega
  unfold memberDetails
  rw [he.permit hanchor]
  refine Yields.bindTraced (Yields.iff_of_ok.mpr rfl) fun anchor heq => ?_
  refine Yields.bindTraced (yields_heading i.title (by omega)) fun n hn => ?_
  refine Yields.bindTraced (he.yields_permit place.file (onPage_heading hn)) fun _ htitle => ?_
  refine Yields.bindTraced (he.yields_memberBody hlevel hi hp hkind) fun _ hbody => .pure ?_
  rw [← heq]
  exact ⟨(hanchor.append htitle).append hbody, List.mem_cons_self ..⟩

theorem Sound.yields_memberCells (he : env.Sound) (file : Text) (hi : env.root.info? a = some i)
    (hp : ∀ b ∈ parents, b ∈ env.root.walk) :
    Yields (env.memberCells file a i parents).outcome fun cells =>
      ∀ c ∈ cells, env.OnPage file c := by
  have htitle : env.OnPage file (env.titleCell file a i) := onPage_titleCell hi
  unfold memberCells
  dsimp only
  split
  · refine Yields.bindTraced (he.yields_descriptionCell hi hp) fun _ hdescription => .pure ?_
    exact List.forall_mem_cons.mpr ⟨htitle, List.forall_mem_singleton.mpr hdescription⟩
  · refine Yields.bindTraced (he.yields_typeCell file a i.name i.valueType) fun _ htype => ?_
    refine Yields.bindTraced (he.yields_descriptionCell hi hp) fun _ hdescription => .pure ?_
    exact List.forall_mem_cons.mpr ⟨htitle, List.forall_mem_cons.mpr ⟨htype,
      List.forall_mem_singleton.mpr hdescription⟩⟩

theorem Sound.yields_memberRow? (he : env.Sound) (hplace : 1 ≤ place.level) (own : Bool)
    (a : Address) (hp : ∀ b ∈ parents, b ∈ env.root.walk) :
    Yields (env.memberRow? place own a parents).outcome fun row? =>
      (∀ row ∈ row?, env.RowFits place.file row) ∧
      (own = true → env.Marked [a] (row?.toList.flatMap MemberRow.details)) := by
  unfold memberRow?
  split
  · rename_i hnone
    refine .pure ⟨fun _ h => (by cases h), fun _ b hb j hj => ?_⟩
    rw [List.mem_singleton.mp hb, hnone] at hj
    cases hj
  · rename_i i hi
    split
    · rename_i hgroup
      refine .pure ⟨fun _ h => (by cases h), fun _ b hb j hj id hid => ?_⟩
      rw [List.mem_singleton.mp hb, hi] at hj
      obtain rfl := Option.some.inj hj
      rw [anchorOf?_of_group hgroup] at hid
      cases hid
    · rename_i group hgroup
      refine Yields.bindTraced (he.yields_memberCells place.file hi hp) fun cells hcells => ?_
      cases own with
      | true =>
        refine Yields.bindTraced (he.yields_memberDetails hplace hi hp (hasTables_of_group hgroup))
          fun details ⟨hdetails, hanchor⟩ => .pure ⟨?_, fun _ b hb j hj id hid => ?_⟩
        · rintro row hrow
          obtain rfl := Option.some.inj hrow
          exact ⟨hcells, hdetails⟩
        · rw [List.mem_singleton.mp hb, hi] at hj
          obtain rfl := Option.some.inj hj
          rw [hid] at hanchor
          simpa using hanchor
      | false =>
        refine Yields.bindTraced (P := (· = [])) ⟨[], rfl, rfl⟩ fun details hdetails =>
          .pure ⟨?_, fun h => absurd h Bool.false_ne_true⟩
        rintro row hrow
        obtain rfl := Option.some.inj hrow
        exact ⟨hcells, hdetails ▸ Fit.nil⟩

/-! ## All members -/

/-- Rows that fit on the page at a path and that mark the own members among some declarations. -/
def RowsMark (env : Env) (file : Text) (as : List Address) (rows : List MemberRow) : Prop :=
  (∀ row ∈ rows, env.RowFits file row) ∧ env.Marked as (rows.flatMap MemberRow.details)

theorem RowsMark.append {as' : List Address} {rows' : List MemberRow}
    (h : env.RowsMark file as rows) (h' : env.RowsMark file as' rows') :
    env.RowsMark file (as ++ as') (rows ++ rows') := by
  refine ⟨List.forall_mem_append.mpr ⟨h.1, h'.1⟩, ?_⟩
  rw [List.flatMap_append]
  refine List.forall_mem_append.mpr ⟨?_, ?_⟩
  · exact h.2.mono fun _ => List.mem_append_left _
  · exact h'.2.mono fun _ => List.mem_append_right _

theorem RowsMark.nil : env.RowsMark file [] [] :=
  ⟨List.forall_mem_nil _, List.forall_mem_nil _⟩

/-- The rows of some declarations mark all of these, if they are own ones. -/
theorem Sound.yields_memberRowsOf (he : env.Sound) (hplace : 1 ≤ place.level) (own : Bool)
    (hp : ∀ b ∈ parents, b ∈ env.root.walk) (as : List Address) :
    Yields (env.memberRowsOf place own parents as).outcome
      (env.RowsMark place.file (as.filter fun _ => own)) := by
  induction as with
  | nil => exact .pure RowsMark.nil
  | cons a as ih =>
    unfold memberRowsOf
    refine Yields.bindTraced (he.yields_memberRow? hplace own a hp) fun row? ⟨hfits, hmark⟩ => ?_
    refine Yields.bindTraced ih fun rows hrows => .pure ?_
    have hrow : env.RowsMark place.file ([a].filter fun _ => own) row?.toList := by
      refine ⟨fun row hrow => hfits row (Option.mem_toList.mp hrow), ?_⟩
      cases own with
      | true => exact hmark rfl
      | false => exact List.forall_mem_nil _
    have hall := hrow.append hrows
    rwa [← List.filter_append] at hall

theorem Sound.yields_resolvedRows (he : env.Sound) (hplace : 1 ≤ place.level) {r : Resolved}
    (hp : ∀ b ∈ r.parents, b ∈ env.root.walk) :
    Yields (env.resolvedRows place r).outcome (env.RowsMark place.file r.own) := by
  unfold resolvedRows
  split
  · rename_i hown
    refine (he.yields_memberRowsOf hplace false hp _).mono fun rows hrows => ⟨hrows.1, ?_⟩
    rw [List.isEmpty_iff.mp hown]
    exact List.forall_mem_nil _
  · refine (he.yields_memberRowsOf hplace true hp r.own).mono fun rows hrows => ?_
    rwa [List.filter_true] at hrows

theorem Sound.yields_memberRows (he : env.Sound) (hplace : 1 ≤ place.level)
    (hp : ∀ r ∈ rs, ∀ b ∈ r.parents, b ∈ env.root.walk) :
    Yields (env.memberRows place rs).outcome
      (env.RowsMark place.file (rs.flatMap Resolved.own)) := by
  induction rs with
  | nil => exact .pure RowsMark.nil
  | cons r rs ih =>
    obtain ⟨hr, hrs⟩ := List.forall_mem_cons.mp hp
    unfold memberRows
    refine Yields.bindTraced (he.yields_resolvedRows hplace hr) fun _ hfirst => ?_
    exact Yields.bindTraced (ih hrs) fun _ hmore => .pure (hfirst.append hmore)

/-! ## Tables and details -/

theorem Sound.yields_groupTables (he : env.Sound) (hplace : 1 ≤ place.level)
    (h : ∀ row ∈ rows, env.RowFits place.file row) (gs : List Group) :
    Yields (env.groupTables place rows gs) (env.OnPage place.file) := by
  induction gs with
  | nil => exact .pure Fit.nil
  | cons g gs ih =>
    have hcells : env.Rows place.file ((rows.filter (·.group == g)).map MemberRow.cells) := by
      intro cells hcells
      obtain ⟨row, hrow, rfl⟩ := List.mem_map.mp hcells
      exact (h row (List.mem_of_mem_filter hrow)).1
    unfold groupTables
    refine (he.yields_tableUnder hplace _ _ hcells).bind fun _ hfirst => ?_
    exact ih.bind fun _ hmore => .pure (hfirst.append hmore)

/-- The details of all rows in some groups are put on the page. -/
theorem Sound.yields_groupDetails (he : env.Sound) (hplace : 1 ≤ place.level)
    (h : ∀ row ∈ rows, env.RowFits place.file row) (gs : List Group) :
    Yields (env.groupDetails place rows gs) fun found => env.OnPage place.file found ∧
      ∀ row ∈ rows, row.group ∈ gs → ∀ n ∈ row.details, n ∈ found := by
  induction gs with
  | nil => exact .pure ⟨Fit.nil, fun _ _ h => absurd h List.not_mem_nil⟩
  | cons g gs ih =>
    let details := (rows.filter (·.group == g)).flatMap MemberRow.details
    have hdetails : env.OnPage place.file details := by
      intro n hn
      obtain ⟨row, hrow, hn⟩ := List.mem_flatMap.mp hn
      exact (h row (List.mem_of_mem_filter hrow)).2 n hn
    -- what follows once the details of this group are there
    have hrest : ∀ first, env.OnPage place.file first → (∀ n ∈ details, n ∈ first) →
        Yields (do return first ++ (← env.groupDetails place rows gs)) fun found =>
          env.OnPage place.file found ∧
            ∀ row ∈ rows, row.group ∈ g :: gs → ∀ n ∈ row.details, n ∈ found := by
      intro first hfirst hall
      refine ih.bind fun more ⟨hmore, hothers⟩ => .pure ⟨hfirst.append hmore, ?_⟩
      intro row hrow hgroup n hn
      rcases List.mem_cons.mp hgroup with hg | hg
      · have hrow : row ∈ rows.filter (·.group == g) :=
          List.mem_filter.mpr ⟨hrow, beq_iff_eq.mpr hg⟩
        exact List.mem_append_left _ (hall n (List.mem_flatMap.mpr ⟨row, hrow, hn⟩))
      · exact List.mem_append_right _ (hothers row hrow hg n hn)
    unfold groupDetails
    dsimp only
    split
    · rename_i hnil
      refine hrest [] Fit.nil fun n hn => ?_
      rwa [← List.isEmpty_iff.mp hnil]
    · exact (he.yields_titled hplace _ hdetails).bind fun first ⟨hfirst, hall⟩ =>
        hrest first hfirst hall

theorem Group.mem_all (g : Group) : g ∈ Group.all := by
  cases g <;> decide

/-- The tables and details of a type can be built, and all its own members are marked. -/
theorem Sound.yields_memberTables (he : env.Sound) (hplace : 1 ≤ place.level) (a : Address) :
    Yields (env.memberTables place a).outcome fun found =>
      env.OnPage place.file found ∧ env.Marked (env.root.membersAt a) found := by
  have hparents : ∀ r ∈ resolvedMembers env.root env.graph a, ∀ b ∈ r.parents,
      b ∈ env.root.walk := fun r hr b hb => mem_walk_of_mem_resolved hr (.inr hb)
  unfold memberTables
  refine Yields.bindTraced (he.yields_memberRows hplace hparents) fun rows ⟨hfits, hmark⟩ => ?_
  refine Yields.bindTraced (he.yields_groupTables hplace hfits Group.all) fun _ htables => ?_
  refine Yields.bindTraced (he.yields_groupDetails hplace hfits Group.all)
    fun details ⟨hdetails, hall⟩ => .pure ⟨htables.append hdetails, ?_⟩
  intro b hb i hi id hid
  obtain ⟨r, hr, hown⟩ := exists_resolved_of_mem_membersAt env.graph hb
  have hanchor := hmark b (List.mem_flatMap.mpr ⟨r, hr, hown⟩) i hi id hid
  obtain ⟨row, hrow, hn⟩ := List.mem_flatMap.mp hanchor
  exact List.mem_append_right _ (hall row hrow (Group.mem_all _) _ hn)

end Env

end ApiReference.Page
