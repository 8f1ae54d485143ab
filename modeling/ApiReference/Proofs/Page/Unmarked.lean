import ApiReference.Page.Members
import ApiReference.Proofs.Doc.Anchors
import ApiReference.Proofs.Page.Cells

/-!
# What is said about a declaration has no anchors

The anchors of a page are those that the details of members start with.  Nothing else
that is said about a declaration has any, whatever it is built with: comments are read
without anchors, and each part of a description is followed here to the nodes that it
adds.
-/

namespace ApiReference.Page

open Declaration Doc Inheritance Scope

variable {n : Node} {ns ns' nodes : List Node}

theorem unmarked_of_isInline (h : Comment.IsInline n) : Unmarked n := by
  refine .leaf h.isLeaf fun hkind => ?_
  have hinline := h.1
  rw [hkind] at hinline
  exact absurd hinline (by decide)

theorem unmarked_of_isRead (h : Comment.IsRead n) : Unmarked n := by
  unfold Comment.IsRead at h
  split at h
  · exact .paragraph fun m hm => unmarked_of_isInline (h m hm)
  · exact .leaf rfl nofun
  · exact h.elim

theorem anchorless_of_read (h : ∀ n ∈ ns, Comment.IsRead n) : Anchorless ns :=
  fun n hn => unmarked_of_isRead (h n hn)

theorem unmarked_plainText (text : Text) : Unmarked (.plainText text) := .leaf rfl nofun

theorem unmarked_bold (text : Text) : Unmarked (.bold text) :=
  .emphasis true false (List.forall_mem_singleton.mpr (unmarked_plainText text))

theorem unmarked_heading (title : Text) (level : HeadingLevel) : Unmarked (.heading title level) :=
  .leaf rfl nofun

theorem unmarked_link (env : Env) (file : Text) (target : Address) (text : Text) :
    Unmarked (env.link file target text) :=
  .leaf rfl nofun

theorem anchorless_caption (text : Text) : Anchorless [.caption text] :=
  List.forall_mem_singleton.mpr (.paragraph (List.forall_mem_singleton.mpr (unmarked_bold text)))

theorem anchorless_cell (h : Unmarked n) : Anchorless (Node.cell n) :=
  List.forall_mem_singleton.mpr (.paragraph (List.forall_mem_singleton.mpr h))

theorem Anchorless.append (h : Anchorless ns) (h' : Anchorless ns') : Anchorless (ns ++ ns') :=
  List.forall_mem_append.mpr ⟨h, h'⟩

/-- A paragraph, which is left out if there is nothing in it. -/
def paragraphOf (inner : List Node) : List Node := if inner.isEmpty then [] else [.paragraph inner]

/-- A section behind nodes in a line. Its first paragraph goes on in that line. -/
def follow (mark : List Node) : List Node → List Node
  | .paragraph inner :: rest => paragraphOf (mark ++ inner) ++ rest
  | rest => paragraphOf mark ++ rest

theorem anchorless_paragraphOf (h : Anchorless ns) : Anchorless (paragraphOf ns) := by
  unfold paragraphOf
  split
  · exact List.forall_mem_nil _
  · exact List.forall_mem_singleton.mpr (.paragraph h)

theorem anchorless_follow (h : Anchorless ns) (h' : Anchorless ns') :
    Anchorless (follow ns ns') := by
  unfold follow
  split
  · obtain ⟨hfirst, hrest⟩ := List.forall_mem_cons.mp h'
    have hline := Anchorless.append h hfirst.of_paragraph
    exact Anchorless.append (anchorless_paragraphOf hline) hrest
  · exact Anchorless.append (anchorless_paragraphOf h) h'

namespace Env

variable {env : Env} {file title : Text} {a : Address} {i : Info} {parents : List Address}
variable {cs : List Comment} {place : Place} {depth : Int}

/-! ## Adding nodes -/

/-- What holds of some nodes holds of them once they are permitted. -/
theorem ensures_permit {p : List Node → Prop} (h : p ns) : Ensures (env.permit ns) p := by
  intro nodes hnodes
  rwa [eq_of_permit hnodes]

theorem of_addInline_paragraph {inner : List Node}
    (h : env.addInline [.paragraph inner] ns = .ok nodes) :
    nodes = [.paragraph (inner ++ ns)] := by
  induction ns generalizing inner with
  | nil =>
    obtain rfl := Except.ok.inj h
    rw [List.append_nil]
  | cons n ns ih =>
    rw [addInline] at h
    obtain ⟨first, hfirst, h⟩ := bind_eq_ok.mp h
    rcases of_appendInParagraph hfirst with ⟨front, inner', heq, rfl⟩ | ⟨hlast, rfl⟩
    · have heq : [] ++ [Node.paragraph inner] = front ++ [.paragraph inner'] := heq
      obtain ⟨rfl, hinner⟩ := List.append_inj' heq rfl
      obtain rfl := Node.paragraph.inj (List.singleton_inj.mp hinner)
      rw [ih h, List.append_assoc, List.singleton_append]
    · exact absurd rfl (hlast inner)

/-- Nodes in a line that are added to an empty section become its one paragraph. -/
theorem ensures_addInline_nil (env : Env) (ns : List Node) :
    Ensures (env.addInline [] ns) (· = paragraphOf ns) := by
  cases ns with
  | nil => exact .pure rfl
  | cons n ns =>
    unfold addInline
    refine Ensures.bind (fun _ h => h) fun first hfirst => ?_
    rcases of_appendInParagraph hfirst with ⟨front, inner, heq, -⟩ | ⟨-, rfl⟩
    · exact absurd heq.symm (List.append_ne_nil_of_right_ne_nil _ (List.cons_ne_nil _ _))
    · exact fun nodes hnodes => of_addInline_paragraph hnodes

theorem ensures_addInline_paragraphOf (env : Env) (ns ns' : List Node) :
    Ensures (env.addInline (paragraphOf ns) ns') (· = paragraphOf (ns ++ ns')) := by
  cases ns with
  | nil => exact ensures_addInline_nil env ns'
  | cons n ns => exact fun nodes hnodes => of_addInline_paragraph hnodes

theorem ensures_addInline (h : Anchorless ns) : Ensures (env.addInline [] ns) Anchorless := by
  intro nodes hnodes
  rw [ensures_addInline_nil env ns nodes hnodes]
  exact anchorless_paragraphOf h

/-- A section that is merged with nodes in a line follows them. -/
theorem ensures_merge_eq (env : Env) (ns ns' : List Node) :
    Ensures (env.merge (paragraphOf ns) ns') (· = follow ns ns') := by
  unfold merge
  split
  · refine (ensures_addInline_paragraphOf env ns _).bind ?_
    rintro _ rfl
    refine (ensures_permit rfl).bind ?_
    rintro _ rfl
    exact .pure rfl
  · rename_i hparagraph
    refine (ensures_permit rfl).bind ?_
    rintro _ rfl
    refine .pure ?_
    rw [follow]
    exact hparagraph

/-! ## What comes before the tables -/

theorem ensures_betaBox (env : Env) (i : Info) : Ensures (env.betaBox i) Anchorless := by
  unfold betaBox
  split
  · refine ensures_permit (List.forall_mem_singleton.mpr (.noteBox ?_))
    exact anchorless_cell (unmarked_plainText _)
  · exact .pure (List.forall_mem_nil _)

theorem ensures_deprecatedBox (env : Env) (hi : ReadComment i) :
    Ensures (env.deprecatedBox i) Anchorless := by
  unfold deprecatedBox
  split
  · exact .pure (List.forall_mem_nil _)
  · rename_i block hblock
    obtain ⟨c, hc, hb⟩ := Option.bind_eq_some_iff.mp hblock
    refine (ensures_permit (anchorless_of_read ((hi c hc).deprecated block hb))).bind
      fun _ hcontent => ?_
    refine ensures_permit (List.forall_mem_singleton.mpr (.noteBox ?_))
    exact Anchorless.append (anchorless_cell (unmarked_plainText _)) hcontent

theorem isRead_summary (h : ∀ c ∈ cs, Comment.AsRead c) :
    ∀ n ∈ summary cs, Comment.IsRead n := by
  unfold summary
  split
  · rename_i c hc
    exact (h c (List.mem_of_find?_eq_some hc)).summary
  · exact List.forall_mem_nil _

theorem anchorless_remarks (h : ∀ c ∈ cs, Comment.AsRead c) : Anchorless (remarks cs) := by
  unfold remarks
  split
  · rename_i block hblock
    obtain ⟨c, hc, hb⟩ := List.exists_of_findSome?_eq_some hblock
    exact anchorless_of_read ((h c hc).remarks block hb)
  · exact List.forall_mem_nil _

theorem anchorless_inheritanceNote (env : Env) (file : Text) (a : Address)
    (parents : List Address) : Anchorless (env.inheritanceNote file a parents) := by
  unfold inheritanceNote
  split
  · exact List.forall_mem_nil _
  · refine anchorless_cell (.emphasis false true (List.forall_mem_cons.mpr ⟨?_, ?_⟩))
    · exact unmarked_plainText _
    · exact List.forall_mem_singleton.mpr (unmarked_link env file _ _)

theorem ensures_signature (env : Env) (i : Info) : Ensures (env.signature i) Anchorless := by
  unfold signature
  split
  · exact .pure (List.forall_mem_nil _)
  · refine (ensures_permit (anchorless_caption _)).bind fun _ hcaption => ?_
    have hcode : Anchorless [.fencedCode i.signature env.language] :=
      List.forall_mem_singleton.mpr (.leaf rfl nofun)
    exact (ensures_permit hcode).bind fun _ hcode => .pure (Anchorless.append hcaption hcode)

theorem ensures_defaultValue (env : Env) (h : ∀ c ∈ cs, Comment.AsRead c) :
    Ensures (env.defaultValue cs) Anchorless := by
  unfold defaultValue
  split
  · exact .pure (List.forall_mem_nil _)
  · rename_i block hblock
    obtain ⟨c, hc, hb⟩ := List.exists_of_findSome?_eq_some hblock
    have hread := (h c hc).custom block (List.mem_of_mem_filter (List.mem_of_mem_head? hb))
    dsimp only
    split
    · rename_i inner hinner
      rw [hinner] at hread
      have hinline : ∀ n ∈ inner, Comment.IsInline n := List.forall_mem_singleton.mp hread
      refine ensures_permit (List.forall_mem_singleton.mpr (.paragraph ?_))
      refine List.forall_mem_cons.mpr ⟨unmarked_bold _, List.forall_mem_cons.mpr ⟨?_, ?_⟩⟩
      · exact unmarked_plainText _
      · exact fun n hn => unmarked_of_isInline (hinline n hn)
    · refine ensures_permit (List.forall_mem_cons.mpr ⟨?_, anchorless_of_read hread⟩)
      exact .paragraph (List.forall_mem_singleton.mpr (unmarked_bold _))

theorem ensures_heading (place : Place) (title : Text) (depth : Int) :
    Ensures (heading place title depth) fun n => ∃ level, n = .heading title level := by
  intro n hn
  unfold heading at hn
  dsimp only at hn
  split at hn
  · rename_i level _
    exact ⟨level, (Except.ok.inj hn).symm⟩
  · cases hn

theorem ensures_titled (place : Place) (title : Text) (h : Anchorless ns) :
    Ensures (env.titled place title ns) Anchorless := by
  refine (ensures_heading place title 1).bind ?_
  rintro _ ⟨level, rfl⟩
  have hheading : Anchorless [.heading title level] :=
    List.forall_mem_singleton.mpr (unmarked_heading title level)
  refine (ensures_permit hheading).bind fun _ hfirst => ?_
  exact (ensures_permit h).bind fun _ hmore => .pure (Anchorless.append hfirst hmore)

theorem ensures_examplesFrom (place : Place) (numbered : Bool) (n : Nat)
    {blocks : List Comment.Block} (h : ∀ b ∈ blocks, Anchorless b.content) :
    Ensures (env.examplesFrom place numbered n blocks) Anchorless := by
  induction blocks generalizing n with
  | nil => exact .pure (List.forall_mem_nil _)
  | cons block blocks ih =>
    obtain ⟨hblock, hblocks⟩ := List.forall_mem_cons.mp h
    unfold examplesFrom
    refine (ensures_titled place _ hblock).bind fun _ hfirst => ?_
    exact (ih (n + 1) hblocks).bind fun _ hmore => .pure (Anchorless.append hfirst hmore)

theorem ensures_examples (env : Env) (place : Place) (hi : ReadComment i) :
    Ensures (env.examples place i) Anchorless := by
  unfold examples
  split
  · exact .pure (List.forall_mem_nil _)
  · rename_i c hc
    refine ensures_examplesFrom place _ 1 fun block hb => ?_
    exact anchorless_of_read ((hi c hc).custom block (List.mem_of_mem_filter hb))

theorem unmarked_treeText (env : Env) (file : Text) (current : Address) (item : Ref) :
    Unmarked (env.treeText file current item) := by
  cases item with
  | label name => exact unmarked_plainText name
  | declaration a =>
    simp only [treeText]
    split
    · exact unmarked_bold _
    · exact unmarked_link env file a _

mutual

theorem ensures_treeNodes (env : Env) (file : Text) (current : Address) :
    (t : Tree) → Ensures (env.treeNodes file current t) Anchorless
  | .node item children => by
    rw [treeNodes]
    have htext := unmarked_treeText env file current item
    refine Ensures.bind (P := Anchorless) (fun text hpermit => ?_) fun text htext => ?_
    · rw [eq_of_permit hpermit]
      exact List.forall_mem_singleton.mpr htext
    · split
      · exact .pure htext
      · refine (ensures_treeList env file current children).bind fun below hbelow => ?_
        refine Ensures.bind (P := Anchorless) (fun list hpermit => ?_) fun list hlist =>
          .pure (Anchorless.append htext hlist)
        rw [eq_of_permit hpermit]
        exact List.forall_mem_singleton.mpr (.list hbelow)

theorem ensures_treeList (env : Env) (file : Text) (current : Address) :
    (ts : List Tree) → Ensures (env.treeList file current ts) Anchorless
  | [] => .pure (List.forall_mem_nil _)
  | t :: ts => by
    rw [treeList]
    refine (ensures_treeNodes env file current t).bind fun _ hfirst => ?_
    exact (ensures_treeList env file current ts).bind fun _ hmore =>
      .pure (Anchorless.append hfirst hmore)

end

theorem ensures_diagram (env : Env) (place : Place) (a : Address) (title : Text) (tree : Tree) :
    Ensures (env.diagram place a title tree) Anchorless := by
  unfold diagram
  split
  · exact .pure (List.forall_mem_nil _)
  · refine (ensures_heading place title 1).bind ?_
    rintro _ ⟨level, rfl⟩
    have hheading : Anchorless [.heading title level] :=
      List.forall_mem_singleton.mpr (unmarked_heading title level)
    refine (ensures_permit hheading).bind fun _ hfirst => ?_
    refine (ensures_treeList env place.file a [tree]).bind fun list hlist => ?_
    have hbelow : Anchorless [.list list] := List.forall_mem_singleton.mpr (.list hlist)
    exact (ensures_permit hbelow).bind fun _ hmore => .pure (Anchorless.append hfirst hmore)

theorem ensures_diagrams (env : Env) (place : Place) (a : Address) (i : Info) :
    Ensures (env.diagrams place a i) Anchorless := by
  unfold diagrams
  dsimp only
  split
  · refine (ensures_diagram env place a _ _).bind fun _ hclasses => ?_
    exact (ensures_diagram env place a _ _).bind fun _ hmore =>
      .pure (Anchorless.append hclasses hmore)
  · refine (ensures_diagram env place a _ _).bind fun _ hparents => ?_
    exact (ensures_diagram env place a _ _).bind fun _ hmore =>
      .pure (Anchorless.append hparents hmore)
  · exact .pure (List.forall_mem_nil _)

theorem ensures_front (place : Place) (hread : env.root.Everywhere ReadComment)
    (hi : env.root.info? a = some i) (parents : List Address) :
    Ensures (env.front place a i parents) Anchorless := by
  have hcomment := hread a i hi
  have hcs := of_mem_comments hread parents hi
  unfold front
  dsimp only
  refine (ensures_betaBox env i).bind fun _ hbeta => ?_
  refine (ensures_deprecatedBox env hcomment).bind fun _ hdeprecated => ?_
  refine (ensures_permit (anchorless_of_read (isRead_summary hcs))).bind fun _ hsummary => ?_
  refine (ensures_permit (anchorless_inheritanceNote env _ a _)).bind fun _ hnote => ?_
  refine (ensures_permit (anchorless_remarks hcs)).bind fun _ hremarks => ?_
  refine (ensures_signature env i).bind fun _ hsignature => ?_
  refine (ensures_defaultValue env hcs).bind fun _ hvalue => ?_
  refine (ensures_diagrams env place a i).bind fun _ hdiagrams => ?_
  refine (ensures_examples env place hcomment).bind fun _ hexamples => .pure ?_
  simp only [Anchorless, List.forall_mem_append]
  exact ⟨⟨⟨⟨⟨⟨⟨⟨hbeta, hdeprecated⟩, hsummary⟩, hnote⟩, hremarks⟩, hsignature⟩, hvalue⟩,
    hdiagrams⟩, hexamples⟩

/-! ## Tables -/

/-- The mark in front of what a table says about a declaration that may still change. -/
def stageMark (i : Info) : List Node := if i.releaseTag = .beta then betaMark else []

/-- What a table says about a declaration: its summary behind the mark, and the note. -/
theorem ensures_descriptionCell_eq (env : Env) (file : Text) (a : Address) (i : Info)
    (parents : List Address) : Ensures (env.descriptionCell file a i parents)
      (· = follow (stageMark i) (summary (env.comments i parents)) ++
        env.inheritanceNote file a parents) := by
  unfold descriptionCell
  rw [← stageMark]
  refine (ensures_addInline_nil env (stageMark i)).bind ?_
  rintro _ rfl
  refine (ensures_merge_eq env _ _).bind ?_
  rintro _ rfl
  refine (ensures_permit rfl).bind ?_
  rintro _ rfl
  exact .pure rfl

theorem anchorless_stageMark (i : Info) : Anchorless (stageMark i) := by
  unfold stageMark
  split
  · refine List.forall_mem_cons.mpr ⟨.emphasis true true ?_, ?_⟩
    · exact List.forall_mem_singleton.mpr (unmarked_plainText _)
    · exact List.forall_mem_singleton.mpr (unmarked_plainText _)
  · exact List.forall_mem_nil _

theorem ensures_descriptionCell (file : Text) (hread : env.root.Everywhere ReadComment)
    (hi : env.root.info? a = some i) (parents : List Address) :
    Ensures (env.descriptionCell file a i parents) Anchorless := by
  have hsummary := anchorless_of_read (isRead_summary (of_mem_comments hread parents hi))
  intro cell hcell
  rw [ensures_descriptionCell_eq env file a i parents cell hcell]
  exact Anchorless.append (anchorless_follow (anchorless_stageMark i) hsummary)
    (anchorless_inheritanceNote env file a parents)

theorem ensures_typeCell (env : Env) (file : Text) (a : Address) (owner type : Text) :
    Ensures (env.typeCell file a owner type).outcome Anchorless := by
  unfold typeCell
  dsimp only
  split
  · exact .pure (List.forall_mem_nil _)
  · split
    · exact ensures_addInline (List.forall_mem_singleton.mpr (unmarked_link env file _ _))
    · refine Ensures.bindTraced (P := fun _ => True) (fun _ _ => trivial) fun _ _ => ?_
      exact ensures_addInline (List.forall_mem_singleton.mpr (.leaf rfl nofun))

theorem ensures_parameterDescription (env : Env) (hi : ReadComment i) (p : Parameter) :
    Ensures (env.parameterDescription i p) Anchorless := by
  unfold parameterDescription
  split
  · rename_i block hblock
    obtain ⟨c, hc, hb⟩ := Option.bind_eq_some_iff.mp hblock
    exact ensures_permit
      (anchorless_of_read ((hi c hc).params block (List.mem_of_find?_eq_some hb)))
  · exact .pure (List.forall_mem_nil _)

theorem ensures_parameterRows (env : Env) (place : Place) (a : Address) (hi : ReadComment i)
    (ps : List Parameter) : Ensures (env.parameterRows place a i ps).outcome fun rows =>
      ∀ row ∈ rows, ∀ cell ∈ row, Anchorless cell := by
  induction ps with
  | nil => exact .pure (List.forall_mem_nil _)
  | cons p ps ih =>
    unfold parameterRows
    refine Ensures.bindTraced (ensures_parameterDescription env hi p) fun _ hdescription => ?_
    refine Ensures.bindTraced (ensures_typeCell env place.file a i.name p.type)
      fun _ htype => ?_
    refine Ensures.bindTraced ih fun _ hrows => .pure (List.forall_mem_cons.mpr ⟨?_, hrows⟩)
    exact List.forall_mem_cons.mpr ⟨anchorless_cell (unmarked_plainText _),
      List.forall_mem_cons.mpr ⟨htype, List.forall_mem_singleton.mpr hdescription⟩⟩

theorem unmarked_table (columns : List Text) {rows : List (List (List Node))}
    (h : ∀ row ∈ rows, ∀ cell ∈ row, Anchorless cell) :
    Unmarked (.table (Node.titles columns) rows) := by
  refine .table (List.forall_mem_cons.mpr ⟨fun cell hcell => ?_, h⟩)
  obtain ⟨column, -, rfl⟩ := List.mem_map.mp hcell
  exact anchorless_cell (unmarked_plainText _)

theorem ensures_parameterTable (place : Place) (columns : List Text)
    {rows : List (List (List Node))} (h : ∀ row ∈ rows, ∀ cell ∈ row, Anchorless cell) :
    Ensures (env.tableUnder place title columns rows) Anchorless := by
  unfold tableUnder
  split
  · exact .pure (List.forall_mem_nil _)
  · exact ensures_titled place title (List.forall_mem_singleton.mpr (unmarked_table columns h))

theorem unmarked_returnText (i : Info) : Unmarked (returnText i) := by
  unfold returnText
  dsimp only
  split
  · exact .emphasis false false (List.forall_mem_singleton.mpr (unmarked_plainText _))
  · exact .leaf rfl nofun

theorem anchorless_returns (hi : ReadComment i) :
    Anchorless (((i.comment?.bind Comment.returns?).map Comment.Block.content).getD []) := by
  cases hb : i.comment?.bind Comment.returns? with
  | none => exact List.forall_mem_nil _
  | some block =>
    obtain ⟨c, hc, hr⟩ := Option.bind_eq_some_iff.mp hb
    exact anchorless_of_read ((hi c hc).returns block hr)

theorem ensures_parameterTables (env : Env) (place : Place) (a : Address) (hi : ReadComment i) :
    Ensures (env.parameterTables place a i).outcome Anchorless := by
  unfold parameterTables
  refine Ensures.bindTraced (ensures_parameterRows env place a hi i.parameters)
    fun _ hrows => ?_
  refine Ensures.bindTraced (ensures_parameterTable place _ hrows) fun _ htable => ?_
  split
  · exact .pure htable
  · refine Ensures.bindTraced (ensures_permit (anchorless_caption _)) fun _ hcaption => ?_
    refine Ensures.bindTraced (ensures_permit (anchorless_cell (unmarked_returnText i)))
      fun _ htype => ?_
    refine Ensures.bindTraced (ensures_permit (anchorless_returns hi)) fun _ hblock => .pure ?_
    simp only [Anchorless, List.forall_mem_append]
    exact ⟨⟨⟨htable, hcaption⟩, htype⟩, hblock⟩

theorem ensures_simpleTables (env : Env) (place : Place) (a : Address) (hi : ReadComment i)
    (hkind : i.kind.isMethod = true ∨ i.kind.isProperty = true) :
    Ensures (env.simpleTables place a i).outcome Anchorless := by
  unfold simpleTables
  split
  · exact ensures_parameterTables env place a hi
  · exact ensures_parameterTables env place a hi
  · exact ensures_parameterTables env place a hi
  · rename_i henum
    rw [henum] at hkind
    exact absurd hkind (by decide)
  · exact .pure (List.forall_mem_nil _)
  · exact .pure (List.forall_mem_nil _)
  · exact .pure (List.forall_mem_nil _)
  · exact .pure (List.forall_mem_nil _)
  · exact fun _ h => nomatch h

/-- What is said about a method or property below its heading. -/
theorem ensures_memberBody (place : Place) (hread : env.root.Everywhere ReadComment)
    (hi : env.root.info? a = some i) (parents : List Address)
    (hkind : i.kind.isMethod = true ∨ i.kind.isProperty = true) :
    Ensures (env.memberBody place a i parents).outcome Anchorless := by
  unfold memberBody
  refine Ensures.bindTraced (ensures_front place hread hi parents) fun _ hfront => ?_
  exact Ensures.bindTraced (ensures_simpleTables env place a (hread a i hi) hkind)
    fun _ htables => .pure (Anchorless.append hfront htables)

end Env

end ApiReference.Page
