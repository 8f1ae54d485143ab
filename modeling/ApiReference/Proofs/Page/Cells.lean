import ApiReference.Page.Cells
import ApiReference.Proofs.Declaration.Loaded
import ApiReference.Proofs.Inheritance.Declared

/-!
# Links and table cells are sound

In an environment whose parts belong together (`Env.Sound`), every piece that pages
are made of can be built, its nodes may stand where they are put, and its links lead
to declarations of the package or to addresses that a comment gives (`Env.Leads`).
-/

namespace ApiReference.Page

open Declaration Doc Inheritance Markdown Scope

/-- Where the links of a page lead: to an address written in a comment, or to a declaration. -/
def Env.Leads (env : Env) (file url : Text) : Prop :=
  Comment.IsAddress url ∨ ∃ t ∈ env.root.walk, url = env.router.linkFrom env.root file t

/-- Nodes of the page at a path. -/
abbrev Env.OnPage (env : Env) (file : Text) (ns : List Node) : Prop :=
  Fit (PageLeaf (env.Leads file)) .body ns

/-- Nodes of a paragraph of the page at a path. -/
abbrev Env.InLine (env : Env) (file : Text) (ns : List Node) : Prop :=
  Fit (PageLeaf (env.Leads file)) .paragraph ns

/-- An environment whose grammar is the standard one, whose comments are sound, and whose types and
links are those of its tree. -/
structure Env.Sound (env : Env) : Prop where
  grammar : env.grammar = .standard
  language : opensFence env.language = true
  comments : Commented env.root
  types : env.types.Within env.root
  graph : GraphWithin env.root env.graph

namespace Env

variable {env : Env} {file text : Text} {ns nodes : List Node} {a t : Address} {i : Info}
variable {parents : List Address} {cs : List Comment} {place : Place}

/-! ## Nodes -/

theorem onPage_of_written (h : Comment.Written ns) : env.OnPage file ns :=
  h.mono fun _ hn => PageLeaf.mono (fun _ => Or.inl) hn

theorem onPage_paragraph (h : env.InLine file ns) : env.OnPage file [.paragraph ns] :=
  Fit.singleton_iff.mpr ⟨rfl, Sound.paragraph_iff.mpr h⟩

theorem sound_link (ht : t ∈ env.root.walk) :
    Doc.Sound (PageLeaf (env.Leads file)) (env.link file t text) :=
  .leaf rfl (Or.inr ⟨t, ht, rfl⟩)

theorem inLine_link (ht : t ∈ env.root.walk) : env.InLine file [env.link file t text] :=
  Fit.singleton_iff.mpr ⟨rfl, sound_link ht⟩

theorem inLine_emphasis {bold italic : Bool} (h : Fit (PageLeaf (env.Leads file)) .emphasis ns) :
    env.InLine file [.emphasis ns bold italic] :=
  Fit.singleton_iff.mpr ⟨rfl, Sound.emphasis_iff.mpr h⟩

theorem inLine_plainText : env.InLine file [.plainText text] :=
  Fit.of_leaf rfl rfl trivial

theorem sound_bold : Doc.Sound (PageLeaf (env.Leads file)) (.bold text) :=
  Sound.emphasis_iff.mpr (Fit.of_leaf rfl rfl trivial)

theorem inLine_bold : env.InLine file [.bold text] := Fit.singleton_iff.mpr ⟨rfl, sound_bold⟩

theorem onPage_caption : env.OnPage file [.caption text] := onPage_paragraph inLine_bold

theorem onPage_cell {n : Node} (h : env.InLine file [n]) : env.OnPage file (Node.cell n) :=
  onPage_paragraph h

theorem onPage_titles (columns : List Text) : ∀ c ∈ Node.titles columns, env.OnPage file c := by
  intro c hc
  obtain ⟨title, _, rfl⟩ := List.mem_map.mp hc
  exact onPage_cell inLine_plainText

/-! ## Adding nodes -/

theorem Sound.permit (he : env.Sound) (h : env.OnPage file ns) : env.permit ns = .ok ns := by
  rw [Env.permit, he.grammar]
  exact Fit.permit h

theorem Sound.yields_permit (he : env.Sound) (file : Text) (h : env.OnPage file ns) :
    Yields (env.permit ns) (env.OnPage file) :=
  .of_eq (he.permit h) h

theorem Sound.yields_addInline (he : env.Sound) (hnodes : env.OnPage file nodes)
    (h : env.InLine file ns) : Yields (env.addInline nodes ns) (env.OnPage file) := by
  induction ns generalizing nodes with
  | nil => exact .pure hnodes
  | cons n ns ih =>
    obtain ⟨⟨hallowed, hn⟩, hns⟩ := Fit.cons_iff.mp h
    rw [addInline, he.grammar]
    exact (hnodes.appendInParagraph hallowed hn).bind fun _ hmore => ih hmore hns

theorem Sound.yields_merge (he : env.Sound) (hnodes : env.OnPage file nodes)
    (h : env.OnPage file ns) : Yields (env.merge nodes ns) (env.OnPage file) := by
  unfold merge
  split
  · rename_i inner rest
    obtain ⟨⟨_, hinner⟩, hrest⟩ := Fit.cons_iff.mp h
    refine (he.yields_addInline hnodes (Sound.paragraph_iff.mp hinner)).bind fun _ hfirst => ?_
    exact (he.yields_permit file hrest).bind fun _ hmore => .pure (hfirst.append hmore)
  · exact (he.yields_permit file h).bind fun _ hmore => .pure (hnodes.append hmore)

/-! ## Comments -/

theorem Sound.comment (he : env.Sound) (hi : env.root.info? a = some i) : SoundComment i :=
  he.comments a i hi

/-- What holds of all comments of a package holds of those that a description is taken from. -/
theorem of_mem_comments {p : Comment → Prop}
    (h : env.root.Everywhere fun i => ∀ c ∈ i.comment?, p c) (parents : List Address)
    (hi : env.root.info? a = some i) : ∀ c ∈ env.comments i parents, p c := by
  intro c hc
  obtain ⟨j, hj, hcomment⟩ := List.mem_filterMap.mp hc
  rcases List.mem_cons.mp hj with rfl | hj
  · exact h a j hi c hcomment
  · obtain ⟨b, _, hb⟩ := List.mem_filterMap.mp hj
    exact h b j hb c hcomment

theorem Sound.mem_comments (he : env.Sound) (parents : List Address)
    (hi : env.root.info? a = some i) :
    ∀ c ∈ env.comments i parents, Comment.Sound c :=
  of_mem_comments he.comments parents hi

theorem onPage_summary (h : ∀ c ∈ cs, Comment.Sound c) : env.OnPage file (summary cs) := by
  unfold summary
  split
  · rename_i c hc
    exact onPage_of_written (h c (List.mem_of_find?_eq_some hc)).summary
  · exact Fit.nil

/-! ## Cells -/

theorem onPage_inheritanceNote (hp : ∀ b ∈ parents, b ∈ env.root.walk) :
    env.OnPage file (env.inheritanceNote file a parents) := by
  unfold inheritanceNote
  split
  · exact Fit.nil
  · rename_i parent rest
    refine onPage_paragraph (inLine_emphasis ?_)
    have hparent := hp parent (List.mem_cons_self ..)
    exact Fit.cons_iff.mpr ⟨⟨rfl, .leaf rfl trivial⟩,
      Fit.singleton_iff.mpr ⟨rfl, sound_link hparent⟩⟩

theorem onPage_titleCell (hi : env.root.info? a = some i) :
    env.OnPage file (env.titleCell file a i) :=
  onPage_cell (inLine_link (mem_walk_of_info? hi))

theorem inLine_betaMark : env.InLine file betaMark := by
  have hspace : env.InLine file [.plainText [' ']] := inLine_plainText
  have htext : Fit (PageLeaf (env.Leads file)) .emphasis [.plainText "(BETA)"] :=
    Fit.of_leaf rfl rfl trivial
  exact (inLine_emphasis htext).append hspace

theorem Sound.yields_descriptionCell (he : env.Sound) (hi : env.root.info? a = some i)
    (hp : ∀ b ∈ parents, b ∈ env.root.walk) :
    Yields (env.descriptionCell file a i parents) (env.OnPage file) := by
  have hmark : env.InLine file (if i.releaseTag = .beta then betaMark else []) := by
    split
    · exact inLine_betaMark
    · exact Fit.nil
  refine (he.yields_addInline Fit.nil hmark).bind fun _ hfirst => ?_
  refine (he.yields_merge hfirst (onPage_summary (he.mem_comments parents hi))).bind
    fun _ hsummary => ?_
  refine (he.yields_permit file (onPage_inheritanceNote hp)).bind fun _ hnote => ?_
  exact .pure (hsummary.append hnote)

/-- A type can be shown whatever its text is. -/
theorem Sound.yields_typeCell (he : env.Sound) (file : Text) (a : Address) (owner type : Text) :
    Yields (env.typeCell file a owner type).outcome (env.OnPage file) := by
  unfold typeCell
  dsimp only
  split
  · exact .pure Fit.nil
  · split
    · rename_i target htarget
      exact he.yields_addInline Fit.nil (inLine_link (mem_walk_of_resolve he.types htarget))
    · refine Yields.bindTraced (P := fun _ => True) ⟨(), rfl, trivial⟩ fun _ _ => ?_
      exact he.yields_addInline Fit.nil (Fit.of_leaf rfl rfl trivial)

/-! ## Headings -/

/-- A heading below a place that is not above all pages. -/
theorem yields_heading {depth : Int} (title : Text) (h : 1 ≤ place.level + depth) :
    Yields (heading place title depth) fun n => ∃ level, n = .heading title level := by
  have hlevel : (HeadingLevel.ofInt? (min (place.level + depth) 5)).isSome = true := by
    rw [HeadingLevel.ofInt?_isSome]
    omega
  obtain ⟨level, hlevel⟩ := Option.isSome_iff_exists.mp hlevel
  refine .of_eq (a := .heading title level) ?_ ⟨level, rfl⟩
  simp only [heading, hlevel]

theorem onPage_heading {n : Node} {title : Text} (h : ∃ level, n = .heading title level) :
    env.OnPage file [n] := by
  obtain ⟨level, rfl⟩ := h
  exact Fit.of_leaf rfl rfl trivial

/-- What is put under a heading stands behind it as it is. -/
theorem Sound.yields_titled (he : env.Sound) (hplace : 1 ≤ place.level) (title : Text)
    (h : env.OnPage place.file ns) : Yields (env.titled place title ns) fun found =>
      env.OnPage place.file found ∧ ∀ n ∈ ns, n ∈ found := by
  refine (yields_heading title (by omega)).bind fun n hn => ?_
  refine (he.yields_permit place.file (onPage_heading hn)).bind fun _ hfirst => ?_
  rw [he.permit h]
  exact .pure ⟨hfirst.append h, fun _ => List.mem_append_right _⟩

end Env

end ApiReference.Page
