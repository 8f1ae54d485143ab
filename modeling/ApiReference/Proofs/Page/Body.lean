import ApiReference.Page.Body
import ApiReference.Proofs.Page.Cells

/-!
# What is said about one declaration is sound

Every part of a description can be built for every declaration of the package and
fits on its page, one lemma for each part in the order of the parts.  Diagrams are
followed along their trees; the tables of a kind exist for the kinds that are listed
somewhere (`HasTables`).
-/

namespace ApiReference.Page

open Declaration Doc Inheritance Markdown Scope

namespace Env

variable {env : Env} {file : Text} {ns : List Node} {a : Address} {i : Info}
variable {parents : List Address} {cs : List Comment} {place : Place}

/-! ## Warnings, remarks and code -/

theorem onPage_noteBox (h : env.OnPage file ns) : env.OnPage file [.noteBox ns] :=
  Fit.singleton_iff.mpr ⟨rfl, Sound.noteBox_iff.mpr h⟩

theorem Sound.yields_betaBox (he : env.Sound) (file : Text) (i : Info) :
    Yields (env.betaBox i) (env.OnPage file) := by
  unfold betaBox
  split
  · exact he.yields_permit file (onPage_noteBox (onPage_paragraph inLine_plainText))
  · exact .pure Fit.nil

theorem Sound.yields_deprecatedBox (he : env.Sound) (file : Text) (hi : SoundComment i) :
    Yields (env.deprecatedBox i) (env.OnPage file) := by
  unfold deprecatedBox
  split
  · exact .pure Fit.nil
  · rename_i block hblock
    obtain ⟨c, hc, hb⟩ := Option.bind_eq_some_iff.mp hblock
    have hcontent : env.OnPage file block.content :=
      onPage_of_written ((hi c hc).deprecated block hb)
    refine (he.yields_permit file hcontent).bind fun _ hcontent => ?_
    have hnote : env.OnPage file [.paragraph [.plainText deprecatedNote]] :=
      onPage_paragraph inLine_plainText
    exact he.yields_permit file (onPage_noteBox (hnote.append hcontent))

theorem onPage_remarks (h : ∀ c ∈ cs, Comment.Sound c) : env.OnPage file (remarks cs) := by
  unfold remarks
  split
  · rename_i block hblock
    obtain ⟨c, hc, hb⟩ := List.exists_of_findSome?_eq_some hblock
    exact onPage_of_written ((h c hc).remarks block hb)
  · exact Fit.nil

theorem Sound.yields_signature (he : env.Sound) (file : Text) (i : Info) :
    Yields (env.signature i) (env.OnPage file) := by
  unfold signature
  split
  · exact .pure Fit.nil
  · refine (he.yields_permit file onPage_caption).bind fun _ hcaption => ?_
    have hcode : env.OnPage file [.fencedCode i.signature env.language] :=
      Fit.of_leaf rfl rfl he.language
    exact (he.yields_permit file hcode).bind fun _ hcode => .pure (hcaption.append hcode)

/-- What stands in one of the blocks of a comment that have no place of their own. -/
theorem onPage_custom {c : Comment} (hc : Comment.Sound c) {tag : Text} {block : Comment.Block}
    (hb : block ∈ c.blocksOf tag) : env.OnPage file block.content :=
  onPage_of_written (hc.custom block (List.mem_of_mem_filter hb))

theorem Sound.yields_defaultValue (he : env.Sound) (file : Text)
    (h : ∀ c ∈ cs, Comment.Sound c) : Yields (env.defaultValue cs) (env.OnPage file) := by
  unfold defaultValue
  split
  · exact .pure Fit.nil
  · rename_i block hblock
    obtain ⟨c, hc, hb⟩ := List.exists_of_findSome?_eq_some hblock
    have hcontent : env.OnPage file block.content :=
      onPage_custom (h c hc) (List.mem_of_mem_head? hb)
    have hcaption : env.InLine file [.bold "Default Value:"] := inLine_bold
    dsimp only
    split
    · rename_i inner hinner
      rw [hinner] at hcontent
      have hspace : env.InLine file [.plainText [' ']] := inLine_plainText
      have hline := Sound.paragraph_iff.mp (Fit.singleton_iff.mp hcontent).2
      exact he.yields_permit file (onPage_paragraph (hcaption.append (hspace.append hline)))
    · exact he.yields_permit file ((onPage_paragraph hcaption).append hcontent)

/-! ## Diagrams -/

/-- Nodes of a list on the page at a path. -/
abbrev InList (env : Env) (file : Text) (ns : List Node) : Prop :=
  Fit (PageLeaf (env.Leads file)) .list ns

theorem inList_treeText {ref : Ref} (h : Names env.root ref) :
    env.InList file [env.treeText file a ref] := by
  unfold treeText
  split
  · exact Fit.of_leaf rfl rfl trivial
  · rename_i b
    dsimp only
    split
    · exact Fit.singleton_iff.mpr ⟨rfl, sound_bold⟩
    · exact Fit.singleton_iff.mpr ⟨rfl, sound_link (names_declaration.mp h)⟩

theorem yields_treeList {ts : List Tree}
    (ih : ∀ t ∈ ts, Yields (env.treeNodes file a t) (env.InList file)) :
    Yields (env.treeList file a ts) (env.InList file) := by
  induction ts with
  | nil => exact .pure Fit.nil
  | cons t ts ihs =>
    obtain ⟨ht, hts⟩ := List.forall_mem_cons.mp ih
    unfold treeList
    exact ht.bind fun _ hfirst => (ihs hts).bind fun _ hmore => .pure (hfirst.append hmore)

/-- A diagram is a list in which the types below another one are a list again. -/
theorem Sound.yields_treeNodes (he : env.Sound) {t : Tree} (h : TreeWithin env.root t) :
    Yields (env.treeNodes file a t) (env.InList file) := by
  induction h with
  | @node item children hitem _ ih =>
    have htext : env.InList file [env.treeText file a item] := inList_treeText hitem
    unfold treeNodes
    rw [he.grammar, htext.permit]
    refine Yields.bind (Yields.iff_of_ok.mpr htext) fun _ htext => ?_
    split
    · exact .pure htext
    · refine (yields_treeList ih).bind fun below hbelow => ?_
      have hlist : env.InList file [.list below] :=
        Fit.singleton_iff.mpr ⟨rfl, Sound.list_iff.mpr hbelow⟩
      rw [hlist.permit]
      exact .pure (htext.append hlist)

theorem Sound.yields_diagram (he : env.Sound) (hplace : 1 ≤ place.level) (a : Address)
    (title : Text) {tree : Tree} (h : TreeWithin env.root tree) :
    Yields (env.diagram place a title tree) (env.OnPage place.file) := by
  unfold diagram
  split
  · exact .pure Fit.nil
  · refine (yields_heading title (by omega)).bind fun n hn => ?_
    refine (he.yields_permit place.file (onPage_heading hn)).bind fun _ hfirst => ?_
    have hone : ∀ t ∈ [tree], Yields (env.treeNodes place.file a t) (env.InList place.file) :=
      List.forall_mem_singleton.mpr (he.yields_treeNodes h)
    refine (yields_treeList hone).bind fun list hlist => ?_
    have hlist : env.OnPage place.file [.list list] :=
      Fit.singleton_iff.mpr ⟨rfl, Sound.list_iff.mpr hlist⟩
    exact (he.yields_permit place.file hlist).bind fun _ hlist => .pure (hfirst.append hlist)

theorem Sound.yields_diagrams (he : env.Sound) (hplace : 1 ≤ place.level)
    (hi : env.root.info? a = some i) :
    Yields (env.diagrams place a i) (env.OnPage place.file) := by
  have ha := mem_walk_of_info? hi
  have hreached : ∀ direction,
      TreeWithin env.root (childTree env.graph direction (.declaration a)) :=
    fun direction => treeWithin_childTree he.graph direction ha
  unfold diagrams
  dsimp only
  split
  · refine (he.yields_diagram hplace a _ (treeWithin_classTree he.graph ha)).bind
      fun _ hclasses => ?_
    exact (he.yields_diagram hplace a _ (hreached _)).bind fun _ hmore =>
      .pure (hclasses.append hmore)
  · refine (he.yields_diagram hplace a _ (hreached _)).bind fun _ hparents => ?_
    exact (he.yields_diagram hplace a _ (hreached _)).bind fun _ hmore =>
      .pure (hparents.append hmore)
  · exact .pure Fit.nil

/-! ## Examples -/

theorem Sound.yields_examplesFrom (he : env.Sound) (hplace : 1 ≤ place.level) (numbered : Bool)
    (n : Nat) {blocks : List Comment.Block}
    (h : ∀ b ∈ blocks, env.OnPage place.file b.content) :
    Yields (env.examplesFrom place numbered n blocks) (env.OnPage place.file) := by
  induction blocks generalizing n with
  | nil => exact .pure Fit.nil
  | cons block blocks ih =>
    obtain ⟨hblock, hblocks⟩ := List.forall_mem_cons.mp h
    unfold examplesFrom
    refine (he.yields_titled hplace _ hblock).bind fun _ ⟨hfirst, _⟩ => ?_
    exact (ih (n + 1) hblocks).bind fun _ hmore => .pure (hfirst.append hmore)

theorem Sound.yields_examples (he : env.Sound) (hplace : 1 ≤ place.level) (hi : SoundComment i) :
    Yields (env.examples place i) (env.OnPage place.file) := by
  unfold examples
  split
  · exact .pure Fit.nil
  · rename_i c hc
    exact he.yields_examplesFrom hplace _ 1 fun _ => onPage_custom (hi c hc)

/-- All that is said before the tables. -/
theorem Sound.yields_front (he : env.Sound) (hplace : 1 ≤ place.level)
    (hi : env.root.info? a = some i) (hp : ∀ b ∈ parents, b ∈ env.root.walk) :
    Yields (env.front place a i parents) (env.OnPage place.file) := by
  have hcomment := he.comment hi
  have hcs := he.mem_comments parents hi
  unfold front
  dsimp only
  refine (he.yields_betaBox place.file i).bind fun _ hbeta => ?_
  refine (he.yields_deprecatedBox place.file hcomment).bind fun _ hdeprecated => ?_
  refine (he.yields_permit place.file (onPage_summary hcs)).bind fun _ hsummary => ?_
  refine (he.yields_permit place.file (onPage_inheritanceNote hp)).bind fun _ hnote => ?_
  refine (he.yields_permit place.file (onPage_remarks hcs)).bind fun _ hremarks => ?_
  refine (he.yields_signature place.file i).bind fun _ hsignature => ?_
  refine (he.yields_defaultValue place.file hcs).bind fun _ hvalue => ?_
  refine (he.yields_diagrams hplace hi).bind fun _ hdiagrams => ?_
  refine (he.yields_examples hplace hcomment).bind fun _ hexamples => .pure ?_
  exact ((((((((hbeta.append hdeprecated).append hsummary).append hnote).append hremarks).append
    hsignature).append hvalue).append hdiagrams).append hexamples)

/-! ## Tables -/

/-- Rows of cells that fit on the page at a path. -/
abbrev Rows (env : Env) (file : Text) (rows : List (List (List Node))) : Prop :=
  ∀ row ∈ rows, ∀ c ∈ row, env.OnPage file c

theorem Sound.yields_tableUnder (he : env.Sound) (hplace : 1 ≤ place.level) (title : Text)
    (columns : List Text) {rows : List (List (List Node))} (h : env.Rows place.file rows) :
    Yields (env.tableUnder place title columns rows) (env.OnPage place.file) := by
  unfold tableUnder
  split
  · exact .pure Fit.nil
  · have htable : env.OnPage place.file [.table (Node.titles columns) rows] :=
      Fit.singleton_iff.mpr ⟨rfl, Sound.table_iff.mpr
        (List.forall_mem_cons.mpr ⟨onPage_titles columns, h⟩)⟩
    exact (he.yields_titled hplace title htable).mono fun _ => And.left

theorem Sound.yields_parameterDescription (he : env.Sound) (file : Text) (hi : SoundComment i)
    (p : Parameter) : Yields (env.parameterDescription i p) (env.OnPage file) := by
  unfold parameterDescription
  split
  · rename_i block hblock
    obtain ⟨c, hc, hb⟩ := Option.bind_eq_some_iff.mp hblock
    exact he.yields_permit file
      (onPage_of_written ((hi c hc).params block (List.mem_of_find?_eq_some hb)))
  · exact .pure Fit.nil

theorem Sound.yields_parameterRows (he : env.Sound) (place : Place) (a : Address)
    (hi : SoundComment i) (ps : List Parameter) :
    Yields (env.parameterRows place a i ps).outcome (env.Rows place.file) := by
  induction ps with
  | nil => exact .pure (List.forall_mem_nil _)
  | cons p ps ih =>
    unfold parameterRows
    refine Yields.bindTraced (he.yields_parameterDescription place.file hi p)
      fun _ hdescription => ?_
    refine Yields.bindTraced (he.yields_typeCell place.file a i.name p.type) fun _ htype => ?_
    refine Yields.bindTraced ih fun _ hrows => .pure ?_
    refine List.forall_mem_cons.mpr ⟨?_, hrows⟩
    exact List.forall_mem_cons.mpr ⟨onPage_cell inLine_plainText,
      List.forall_mem_cons.mpr ⟨htype, List.forall_mem_singleton.mpr hdescription⟩⟩

theorem inLine_returnText (i : Info) : env.InLine file [returnText i] := by
  unfold returnText
  dsimp only
  split
  · exact inLine_emphasis (Fit.of_leaf rfl rfl trivial)
  · exact Fit.of_leaf rfl rfl trivial

theorem onPage_returns (hi : SoundComment i) : env.OnPage file
    (((i.comment?.bind Comment.returns?).map Comment.Block.content).getD []) := by
  cases hb : i.comment?.bind Comment.returns? with
  | none => exact Fit.nil
  | some block =>
    obtain ⟨c, hc, hr⟩ := Option.bind_eq_some_iff.mp hb
    exact onPage_of_written ((hi c hc).returns block hr)

theorem Sound.yields_parameterTables (he : env.Sound) (hplace : 1 ≤ place.level) (a : Address)
    (hi : SoundComment i) :
    Yields (env.parameterTables place a i).outcome (env.OnPage place.file) := by
  unfold parameterTables
  refine Yields.bindTraced (he.yields_parameterRows place a hi i.parameters) fun _ hrows => ?_
  refine Yields.bindTraced (he.yields_tableUnder hplace _ _ hrows) fun _ htable => ?_
  split
  · exact .pure htable
  · refine Yields.bindTraced (he.yields_permit place.file onPage_caption)
      fun _ hcaption => ?_
    refine Yields.bindTraced (he.yields_permit place.file (onPage_paragraph (inLine_returnText i)))
      fun _ htype => ?_
    refine Yields.bindTraced (he.yields_permit place.file (onPage_returns hi))
      fun _ hblock => .pure ?_
    exact ((htable.append hcaption).append htype).append hblock

theorem Sound.yields_enumRows (he : env.Sound) (place : Place) (as : List Address) :
    Yields (env.enumRows place as) (env.Rows place.file) := by
  induction as with
  | nil => exact .pure (List.forall_mem_nil _)
  | cons a as ih =>
    unfold enumRows
    split
    · exact ih
    · rename_i i hi
      refine (he.yields_descriptionCell hi (List.forall_mem_nil _)).bind
        fun _ hdescription => ?_
      refine ih.bind fun _ hrows => .pure (List.forall_mem_cons.mpr ⟨?_, hrows⟩)
      have hcode : env.InLine place.file [.codeSpan i.initializer] :=
        Fit.of_leaf rfl rfl trivial
      exact List.forall_mem_cons.mpr ⟨onPage_cell inLine_plainText,
        List.forall_mem_cons.mpr ⟨onPage_cell hcode, List.forall_mem_singleton.mpr hdescription⟩⟩

theorem Sound.yields_enumTable (he : env.Sound) (hplace : 1 ≤ place.level) (a : Address) :
    Yields (env.enumTable place a) (env.OnPage place.file) := by
  unfold enumTable
  exact (he.yields_enumRows place _).bind fun _ hrows => he.yields_tableUnder hplace _ _ hrows

/-- The kinds that have tables of their own, or that nothing is tabulated for. -/
def HasTables (kind : Declaration.Kind) : Prop :=
  kind.isMethod = true ∨ kind.isProperty = true ∨
    kind ∈ [.function, .enumType, .typeAlias, .variableDecl]

theorem Sound.yields_simpleTables (he : env.Sound) (hplace : 1 ≤ place.level) (a : Address)
    (hi : SoundComment i) (hkind : HasTables i.kind) :
    Yields (env.simpleTables place a i).outcome (env.OnPage place.file) := by
  unfold simpleTables
  split
  · exact he.yields_parameterTables hplace a hi
  · exact he.yields_parameterTables hplace a hi
  · exact he.yields_parameterTables hplace a hi
  · exact he.yields_enumTable hplace a
  · exact .pure Fit.nil
  · exact .pure Fit.nil
  · exact .pure Fit.nil
  · exact .pure Fit.nil
  · simp_all [HasTables, Declaration.Kind.isMethod, Declaration.Kind.isProperty]

theorem Sound.yields_memberBody (he : env.Sound) (hplace : 1 ≤ place.level)
    (hi : env.root.info? a = some i) (hp : ∀ b ∈ parents, b ∈ env.root.walk)
    (hkind : HasTables i.kind) :
    Yields (env.memberBody place a i parents).outcome (env.OnPage place.file) := by
  unfold memberBody
  refine Yields.bindTraced (he.yields_front hplace hi hp) fun _ hfront => ?_
  exact Yields.bindTraced (he.yields_simpleTables hplace a (he.comment hi) hkind)
    fun _ htables => .pure (hfront.append htables)

end Env

end ApiReference.Page
