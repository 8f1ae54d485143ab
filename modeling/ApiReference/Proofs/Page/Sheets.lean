import ApiReference.Page.Build
import ApiReference.Proofs.Page.Members

/-!
# All pages of a package are built

The page of every declaration that is listed somewhere can be built, and so can that
of the package.  The pages that come out are closed (`Pages`): they are sound, each is
at the path of its declaration, and all that one of them lists has a page among them.
The recursion is the one of `sheets` on the tree: the pages of a container are those
of what it lists and its own.
-/

namespace ApiReference.Page

open Declaration Doc Inheritance Markdown

namespace Env

variable {env : Env} {file : Text} {ns : List Node} {a b : Address} {i : Info} {n : Nat}
variable {d : Declaration} {ms : List Declaration} {place : Place} {s : Sheet}
variable {ss ss' : List Sheet} {listed : List Listed}

/-! ## The head of a page -/

theorem inLine_intersperse (h : ∀ n ∈ ns, env.InLine file [n]) :
    env.InLine file (ns.intersperse (.plainText " > ")) := by
  induction ns with
  | nil => exact Fit.nil
  | cons n ns ih =>
    obtain ⟨hn, hns⟩ := List.forall_mem_cons.mp h
    cases ns with
    | nil => exact hn
    | cons m ns =>
      rw [List.intersperse_cons_cons]
      exact hn.append (inLine_plainText.append (ih hns))

theorem inLine_crumbs (env : Env) (file : Text) (a : Address) :
    env.InLine file (env.crumbs file a) := by
  refine inLine_intersperse fun n hn => ?_
  obtain ⟨b, _, hb⟩ := List.mem_filterMap.mp hn
  split at hb
  · cases hb
  · rename_i i hi
    split at hb
    · cases hb
    · cases hb
      exact inLine_link (mem_walk_of_info? hi)

/-- The kinds of declarations that have pages of their own. -/
def HasSheet (kind : Declaration.Kind) : Prop := kind = .package ∨ kind ∈ listedKinds

theorem yields_pageTitle (env : Env) (a : Address) (hkind : HasSheet i.kind) :
    Yields (env.pageTitle a i) fun _ => True := by
  unfold pageTitle
  split
  · exact .pure trivial
  · rename_i hpackage
    have hword : ∀ kind ∈ listedKinds, (headingWord? kind).isSome = true := by decide
    have hsome := hword i.kind (hkind.resolve_left hpackage)
    obtain ⟨word, hword⟩ := Option.isSome_iff_exists.mp hsome
    rw [hword]
    exact .pure trivial

theorem Sound.yields_listedTables (he : env.Sound) (hplace : 1 ≤ place.level)
    (h : ∀ l ∈ listed, ∀ c ∈ l.cells, env.OnPage place.file c)
    (kinds : List Declaration.Kind) :
    Yields (env.listedTables place listed kinds) (env.OnPage place.file) := by
  induction kinds with
  | nil => exact .pure Fit.nil
  | cons kind kinds ih =>
    have hcells : env.Rows place.file ((listed.filter (·.kind == kind)).map Listed.cells) := by
      intro cells hcells
      obtain ⟨l, hl, rfl⟩ := List.mem_map.mp hcells
      exact h l (List.mem_of_mem_filter hl)
    unfold listedTables
    dsimp only
    refine (he.yields_tableUnder hplace _ _ hcells).bind fun _ hfirst => ?_
    exact ih.bind fun _ hmore => .pure (hfirst.append hmore)

/-! ## Closed lists of pages -/

/-- A page that is at the path of its declaration, fits there, and marks all own members. -/
structure SheetFits (env : Env) (s : Sheet) : Prop where
  mem_walk : s.item ∈ env.root.walk
  path_eq : s.path = (env.router.locate env.root s.item).path
  onPage : env.OnPage s.path s.nodes
  marked : (env.root.kind? s.item).any Kind.isInheriting = true →
    env.Marked (env.root.membersAt s.item) s.nodes

/-- All declarations among some that are listed have pages. -/
def Covers (env : Env) (ss : List Sheet) (as : List Address) : Prop :=
  ∀ a ∈ as, (env.root.kind? a).any listedKinds.contains = true → ∃ s ∈ ss, s.item = a

/-- Pages that fit, with those of all that they list among them. -/
structure Pages (env : Env) (ss : List Sheet) : Prop where
  fits : ∀ s ∈ ss, env.SheetFits s
  closed : ∀ s ∈ ss, (env.root.kind? s.item).any isContainer = true →
    env.Covers ss (env.root.exportsAt s.item)

theorem Covers.mono {as : List Address} (h : env.Covers ss as) (hss : ∀ s ∈ ss, s ∈ ss') :
    env.Covers ss' as := by
  intro a ha hkind
  obtain ⟨s, hs, heq⟩ := h a ha hkind
  exact ⟨s, hss s hs, heq⟩

theorem Pages.append (h : env.Pages ss) (h' : env.Pages ss') : env.Pages (ss ++ ss') := by
  refine ⟨List.forall_mem_append.mpr ⟨h.fits, h'.fits⟩, List.forall_mem_append.mpr ⟨?_, ?_⟩⟩
  · exact fun s hs hkind => (h.closed s hs hkind).mono fun _ => List.mem_append_left _
  · exact fun s hs hkind => (h'.closed s hs hkind).mono fun _ => List.mem_append_right _

theorem Pages.nil : env.Pages [] :=
  ⟨List.forall_mem_nil _, List.forall_mem_nil _⟩

/-- A page joins those of all that it lists. -/
theorem Pages.concat (h : env.Pages ss) (hs : env.SheetFits s)
    (hcovers : (env.root.kind? s.item).any isContainer = true →
      env.Covers ss (env.root.exportsAt s.item)) : env.Pages (ss ++ [s]) := by
  refine ⟨List.forall_mem_append.mpr ⟨h.fits, List.forall_mem_singleton.mpr hs⟩,
    List.forall_mem_append.mpr ⟨?_, List.forall_mem_singleton.mpr ?_⟩⟩
  · exact fun s hs hkind => (h.closed s hs hkind).mono fun _ => List.mem_append_left _
  · exact fun hkind => (hcovers hkind).mono fun _ => List.mem_append_left _

/-! ## One page -/

/-- What a container lists: cells that fit on its page, and the pages of some declarations and all
that these list. -/
structure Lists (env : Env) (file : Text) (as : List Address) (listed : List Listed) : Prop where
  cells : ∀ l ∈ listed, ∀ c ∈ l.cells, env.OnPage file c
  pages : env.Pages (listed.flatMap Listed.sheets)
  covers : env.Covers (listed.flatMap Listed.sheets) as

theorem Sound.yields_body (he : env.Sound) (hplace : 1 ≤ place.level)
    (hi : env.root.info? a = some i) (hkind : HasSheet i.kind) {listed : Traced (List Listed)}
    (hlisted : Yields listed.outcome (env.Lists place.file (env.root.exportsAt a))) :
    Yields (env.body place a i [] listed).outcome fun found =>
      env.OnPage place.file found.1 ∧ env.Pages found.2 ∧
      (isContainer i.kind = true → env.Covers found.2 (env.root.exportsAt a)) ∧
      (i.kind.isInheriting = true → env.Marked (env.root.membersAt a) found.1) := by
  unfold body
  refine Yields.bindTraced (he.yields_front hplace hi (List.forall_mem_nil _))
    fun front hfront => ?_
  have hlist : ∀ kind ∈ listedKinds, isContainer kind = true → kind.isInheriting = false := by
    decide
  split
  · rename_i hcontainer
    refine Yields.bindTraced hlisted fun listed hlisted => ?_
    refine Yields.bindTraced (he.yields_listedTables hplace hlisted.cells listedKinds)
      fun _ htables => .pure ⟨hfront.append htables, hlisted.pages, fun _ => hlisted.covers, ?_⟩
    intro hinheriting
    rcases hkind with hkind | hkind
    · rw [hkind] at hinheriting
      cases hinheriting
    · rw [hlist _ hkind hcontainer] at hinheriting
      cases hinheriting
  · rename_i hcontainer
    split
    · refine Yields.bindTraced (he.yields_memberTables hplace a) fun _ ⟨htables, hmarked⟩ =>
        .pure ⟨hfront.append htables, Pages.nil, fun h => absurd h hcontainer, fun _ => ?_⟩
      exact hmarked.mono fun _ => List.mem_append_right _
    · rename_i hinheriting
      have hrest : ∀ kind ∈ listedKinds, ¬ isContainer kind = true →
          ¬ kind.isInheriting = true → HasTables kind := by
        simp [listedKinds, isContainer, HasTables, Declaration.Kind.isInheriting]
      have htables : HasTables i.kind := by
        rcases hkind with hkind | hkind
        · rw [hkind] at hcontainer
          exact absurd rfl hcontainer
        · exact hrest _ hkind hcontainer hinheriting
      refine Yields.bindTraced (he.yields_simpleTables hplace a (he.comment hi) htables)
        fun _ htables => .pure ⟨hfront.append htables, Pages.nil, fun h => absurd h hcontainer,
          fun h => absurd h hinheriting⟩

/-- The page of a declaration comes after those of what it lists, and the checker accepts it. -/
theorem Sound.yields_sheet (he : env.Sound) (hi : env.root.info? a = some i)
    (hkind : HasSheet i.kind) {listed : Text → Traced (List Listed)}
    (hlisted : ∀ file, Yields (listed file).outcome (env.Lists file (env.root.exportsAt a))) :
    Yields (env.sheet a i listed).outcome fun ss =>
      env.Pages ss ∧ ∃ s ∈ ss, s.item = a := by
  let path := (env.router.locate env.root a).path
  have hkind? : env.root.kind? a = some i.kind := by
    obtain ⟨d, hd, rfl⟩ := Option.map_eq_some_iff.mp hi
    exact kind?_of_get? hd
  unfold sheet
  dsimp only
  refine Yields.bindTraced (he.yields_addInline Fit.nil (inLine_crumbs env path a))
    fun crumbs hcrumbs => ?_
  refine Yields.bindTraced (yields_pageTitle env a hkind) fun title _ => ?_
  refine Yields.bindTraced (he.yields_permit path (onPage_heading ⟨_, rfl⟩)) fun _ htitle => ?_
  have hplace : 1 ≤ (Place.mk path 1).level := le_rfl
  refine Yields.bindTraced (he.yields_body hplace hi hkind (hlisted path)) fun found hfound => ?_
  obtain ⟨hbody, hpages, hcovers, hmarked⟩ := hfound
  have hnodes := (hcrumbs.append htitle).append hbody
  refine Yields.bindTraced (P := fun _ => True) ?_ fun _ _ => .pure ⟨?_, ?_⟩
  · rw [he.grammar]
    exact .of_eq (Sound.validate_eq (Sound.body_iff.mpr hnodes)) trivial
  · refine hpages.concat ⟨mem_walk_of_info? hi, rfl, hnodes, ?_⟩ ?_
    · rw [hkind?]
      exact fun h => (hmarked h).mono fun _ => List.mem_append_right _
    · rw [hkind?]
      exact hcovers
  · exact ⟨_, List.mem_append_right _ (List.mem_singleton.mpr rfl), rfl⟩

/-! ## The tree -/

theorem Lists.nil : env.Lists file [] [] :=
  ⟨List.forall_mem_nil _, Pages.nil, List.forall_mem_nil _⟩

/-- One more listed declaration, with its row and its pages. -/
theorem Lists.cons {as : List Address} {l : Listed} (h : env.Lists file as listed)
    (hcells : ∀ c ∈ l.cells, env.OnPage file c) (hpages : env.Pages l.sheets)
    (hb : ∃ s ∈ l.sheets, s.item = b) : env.Lists file (b :: as) (l :: listed) := by
  refine ⟨List.forall_mem_cons.mpr ⟨hcells, h.cells⟩, ?_, ?_⟩
  · rw [List.flatMap_cons]
    exact hpages.append h.pages
  · rw [List.flatMap_cons]
    refine List.forall_mem_cons.mpr ⟨fun _ => ?_, h.covers.mono fun _ => List.mem_append_right _⟩
    obtain ⟨s, hs, heq⟩ := hb
    exact ⟨s, List.mem_append_left _ hs, heq⟩

/-- What is not listed needs no page. -/
theorem Lists.skip {as : List Address} (h : env.Lists file as listed)
    (hb : ¬ (env.root.kind? b).any listedKinds.contains = true) :
    env.Lists file (b :: as) listed :=
  ⟨h.cells, h.pages, List.forall_mem_cons.mpr ⟨fun hkind => absurd hkind hb, h.covers⟩⟩

theorem entryPoint?_cons (m : Declaration) (ms : List Declaration) : entryPoint? (m :: ms) =
    if m.kind = .entryPoint then some 0 else (entryPoint? ms).map (· + 1) := by
  rw [entryPoint?, List.findIdx?_cons]
  simp only [beq_iff_eq]
  rfl

theorem entryPoint?_eq_none (h : env.entryRows place a n ms = none) : entryPoint? ms = none := by
  induction ms generalizing n with
  | nil => rfl
  | cons m ms ih =>
    obtain ⟨i, inner⟩ := m
    rw [entryRows] at h
    split at h
    · cases h
    · rename_i hkind
      rw [entryPoint?_cons, if_neg hkind, ih h]
      rfl

mutual

theorem Sound.yields_sheets (he : env.Sound) : (d : Declaration) → ∀ a,
    env.root.get? a = some d → HasSheet d.kind → Yields (env.sheets a d).outcome fun ss =>
      env.Pages ss ∧ ∃ s ∈ ss, s.item = a
  | ⟨i, ms⟩ => by
    intro a hd hkind
    have hi : env.root.info? a = some i := info?_of_get? hd
    have hmembers : ∀ k m, ms[k]? = some m → env.root.get? (a ++ [0 + k]) = some m := by
      intro k m hm
      rw [Nat.zero_add, get?_concat hd, hm]
    rw [sheets]
    refine he.yields_sheet hi hkind fun file => ?_
    have hplace : 1 ≤ (Place.mk file 1).level := le_rfl
    split
    · rename_i rows hrows
      obtain ⟨k, m, hk, hm, hlists⟩ := he.yields_entryRows ms _ hplace a 0 hmembers rows hrows
      rw [Nat.zero_add] at hlists
      rwa [exportsAt_of_some hd hk hm]
    · rename_i hnone
      have hlists := he.yields_memberList ms _ hplace a 0 hmembers
      rwa [exportsAt_of_none hd (entryPoint?_eq_none hnone), memberAddresses, List.range_eq_range']

theorem Sound.yields_entryRows (he : env.Sound) : (ms : List Declaration) → ∀ place,
    1 ≤ place.level → ∀ a n, (∀ k m, ms[k]? = some m → env.root.get? (a ++ [n + k]) = some m) →
    ∀ rows, env.entryRows place a n ms = some rows →
    ∃ k m, entryPoint? ms = some k ∧ ms[k]? = some m ∧
      Yields rows.outcome (env.Lists place.file (memberAddresses (a ++ [n + k]) m))
  | [] => by
    intro place _ a n _ rows h
    cases h
  | ⟨i, ms⟩ :: rest => by
    intro place hplace a n hmembers rows h
    rw [entryRows] at h
    split at h
    · rename_i hkind
      cases h
      have hentry : env.root.get? (a ++ [n]) = some ⟨i, ms⟩ := hmembers 0 _ rfl
      refine ⟨0, ⟨i, ms⟩, by rw [entryPoint?_cons, if_pos hkind], rfl, ?_⟩
      rw [memberAddresses, List.range_eq_range']
      refine he.yields_memberList ms place hplace (a ++ [n]) 0 fun k m hm => ?_
      rw [Nat.zero_add, get?_concat hentry, hm]
    · rename_i hkind
      have hrest : ∀ k m, rest[k]? = some m → env.root.get? (a ++ [n + 1 + k]) = some m := by
        intro k m hm
        rw [Nat.add_assoc, Nat.add_comm 1]
        exact hmembers (k + 1) m hm
      obtain ⟨k, m, hk, hm, hlists⟩ :=
        he.yields_entryRows rest place hplace a (n + 1) hrest rows h
      refine ⟨k + 1, m, by rw [entryPoint?_cons, if_neg hkind, hk]; rfl, hm, ?_⟩
      rwa [Nat.add_assoc, Nat.add_comm 1] at hlists

theorem Sound.yields_memberList (he : env.Sound) : (ms : List Declaration) → ∀ place,
    1 ≤ place.level → ∀ a n, (∀ k m, ms[k]? = some m → env.root.get? (a ++ [n + k]) = some m) →
    Yields (env.memberList place a n ms).outcome
      (env.Lists place.file ((List.range' n ms.length).map fun k => a ++ [k]))
  | [] => by
    intro place _ a n _
    exact .pure Lists.nil
  | m :: ms => by
    intro place hplace a n hmembers
    have hm : env.root.get? (a ++ [n]) = some m := hmembers 0 m rfl
    have hi : env.root.info? (a ++ [n]) = some m.toInfo := info?_of_get? hm
    have hrest : ∀ k m', ms[k]? = some m' → env.root.get? (a ++ [n + 1 + k]) = some m' := by
      intro k m' hm'
      rw [Nat.add_assoc, Nat.add_comm 1]
      exact hmembers (k + 1) m' hm'
    have hmore := he.yields_memberList ms place hplace a (n + 1) hrest
    rw [memberList, List.length_cons, List.range'_succ, List.map_cons]
    split
    · rename_i hlisted
      have hsheet : HasSheet m.kind := .inr (List.contains_iff_mem.mp hlisted)
      dsimp only
      refine Yields.bindTraced (he.yields_descriptionCell hi (List.forall_mem_nil _))
        fun description hdescription => ?_
      refine Yields.bindTraced (he.yields_sheets m (a ++ [n]) hm hsheet)
        fun built ⟨hpages, hb⟩ => ?_
      refine Yields.bindTraced hmore fun listed hlists => .pure (hlists.cons ?_ hpages hb)
      exact List.forall_mem_cons.mpr ⟨onPage_titleCell hi,
        List.forall_mem_singleton.mpr hdescription⟩
    · rename_i hlisted
      refine hmore.mono fun listed hlists => hlists.skip ?_
      rwa [kind?_of_get? hm]

end

end Env

end ApiReference.Page
