import ApiReference.Page.Body
import ApiReference.Proofs.Doc.Sound
import ApiReference.Proofs.Inheritance.Outline
import ApiReference.Proofs.Markdown.Items
import ApiReference.Proofs.Page.Links

/-!
# Diagrams as they are written

The list of a diagram has, for every type in its tree, an item and behind it the list of
what is below (`treeList_eq`).  Written down, that is one line for every type, in the
order of the tree and indented by its depth (`ended_writeItems`): the outline of the
tree.  So the tree is read back from the text (`emit_treeList`).
-/

namespace ApiReference.Page

open Declaration Doc Inheritance Markdown Markdown.Emission Scope

variable {f : Ref → Node} {shown : Ref → Text} {t : Tree} {e : Emission} {env : Env}
  {file : Text} {a : Address}

/-! ## The lists of trees -/

mutual

/-- The nodes that a tree becomes in a list. -/
def treeItems (f : Ref → Node) : Tree → List Node
  | .node item children =>
    f item :: if children.isEmpty then [] else [.list (treeItemsAll f children)]

def treeItemsAll (f : Ref → Node) : List Tree → List Node
  | [] => []
  | t :: ts => treeItems f t ++ treeItemsAll f ts

end

mutual

theorem settled_treeItems : (t : Tree) → (∀ item ∈ t.items, Settled (f item)) →
    ∀ n ∈ treeItems f t, Settled n
  | .node item children, h => by
    obtain ⟨hitem, hchildren⟩ := List.forall_mem_cons.mp h
    rw [treeItems]
    refine List.forall_mem_cons.mpr ⟨hitem, ?_⟩
    split
    · exact List.forall_mem_nil _
    · exact List.forall_mem_singleton.mpr (.list (settled_treeItemsAll children hchildren))

theorem settled_treeItemsAll : (ts : List Tree) → (∀ item ∈ Tree.itemsAll ts, Settled (f item)) →
    ∀ n ∈ treeItemsAll f ts, Settled n
  | [], _ => List.forall_mem_nil _
  | t :: ts, h => by
    obtain ⟨ht, hts⟩ := List.forall_mem_append.mp h
    exact List.forall_mem_append.mpr ⟨settled_treeItems t ht, settled_treeItemsAll ts hts⟩

end

theorem permit_list {n : Node} (h : Grammar.standard.allows .list n.kind = true) :
    Grammar.standard.permit .list [n] = .ok [n] := by
  rw [Grammar.permit, Grammar.extend, if_pos h]
  rfl

namespace Env

theorem permit_treeText (henv : env.grammar = .standard) (file : Text) (a : Address)
    (item : Ref) :
    env.grammar.permit .list [env.treeText file a item] = .ok [env.treeText file a item] := by
  rw [henv]
  cases item with
  | label name => exact permit_list rfl
  | declaration b =>
    unfold treeText
    dsimp only
    split
    · exact permit_list rfl
    · exact permit_list rfl

mutual

theorem treeNodes_eq (henv : env.grammar = .standard) (file : Text) (a : Address) :
    (t : Tree) → env.treeNodes file a t = .ok (treeItems (env.treeText file a) t)
  | .node item children => by
    rw [treeNodes, permit_treeText henv, Except.ok_bind, treeItems]
    split
    · rfl
    · rw [treeList_eq henv file a children, Except.ok_bind, henv, permit_list rfl]
      rfl

/-- The list of some trees can be made. -/
theorem treeList_eq (henv : env.grammar = .standard) (file : Text) (a : Address) :
    (ts : List Tree) → env.treeList file a ts = .ok (treeItemsAll (env.treeText file a) ts)
  | [] => rfl
  | t :: ts => by
    rw [treeList, treeNodes_eq henv file a t, Except.ok_bind, treeList_eq henv file a ts]
    rfl

end

end Env

/-! ## Writing them -/

/-- The lines of an outline, each with its end. -/
def outlineText (shown : Ref → Text) (entries : List (Nat × Ref)) : Text :=
  (entries.map fun entry => itemLine entry.1 (shown entry.2)).flatMap (· ++ ['\n'])

theorem outlineText_append (shown : Ref → Text) (s t : List (Nat × Ref)) :
    outlineText shown (s ++ t) = outlineText shown s ++ outlineText shown t := by
  rw [outlineText, List.map_append, List.flatMap_append]
  rfl

mutual

/-- A tree is written as the lines of its outline. -/
theorem ended_writeItems (depth : Nat) (e : Emission) (he : e.writer.Coherent)
    (hindents : e.writer.indents = []) (hlevel : e.listLevel = depth + 1) : (t : Tree) →
    (∀ item ∈ t.items, WrittenAs (f item) (shown item)) →
    ended (writeItems (treeItems f t) e) = ended e ++ outlineText shown (t.outline depth)
  | .node item children, h => by
    obtain ⟨hitem, hchildren⟩ := List.forall_mem_cons.mp h
    have hframes := frames_bullet.comp (frames_write (f item) false)
    have hwritten := he.grows (hframes.grows e)
    have hnone := (hframes.grows e).indents_eq.trans hindents
    have hfirst := ended_item he hindents hitem
    rw [hlevel, Nat.add_sub_cancel] at hfirst
    have hbelow : ended (writeItems (if children.isEmpty then [] else
        [.list (treeItemsAll f children)]) (write false (f item) (bullet e))) =
        ended (write false (f item) (bullet e)) ++
          outlineText shown (Tree.outlineAll (depth + 1) children) := by
      split
      · rename_i hnil
        rw [List.isEmpty_iff.mp hnil, writeItems]
        exact (List.append_nil _).symm
      · have hdepth := (hframes.listLevel_eq e).trans hlevel
        rw [ended_list (hdepth ▸ Nat.succ_pos depth)]
        refine ended_writeItemsAll (depth + 1) ⟨_, _, _ + 1⟩ hwritten hnone ?_ children hchildren
        exact congrArg (· + 1) hdepth
    rw [treeItems, writeItems, if_neg hitem.notList, hbelow, hfirst, Tree.outline,
      List.append_assoc]
    rfl

theorem ended_writeItemsAll (depth : Nat) (e : Emission) (he : e.writer.Coherent)
    (hindents : e.writer.indents = []) (hlevel : e.listLevel = depth + 1) : (ts : List Tree) →
    (∀ item ∈ Tree.itemsAll ts, WrittenAs (f item) (shown item)) →
    ended (writeItems (treeItemsAll f ts) e) =
      ended e ++ outlineText shown (Tree.outlineAll depth ts)
  | [], _ => (List.append_nil _).symm
  | t :: ts, h => by
    obtain ⟨ht, hts⟩ := List.forall_mem_append.mp h
    have hframes := frames_writeItems (treeItems f t)
    rw [treeItemsAll, writeItems_append,
      ended_writeItemsAll depth _ (he.grows (hframes.grows e))
        ((hframes.grows e).indents_eq.trans hindents) ((hframes.listLevel_eq e).trans hlevel) ts
        hts,
      ended_writeItems depth e he hindents hlevel t ht, Tree.outlineAll, outlineText_append,
      List.append_assoc]

end

/-- An outline of a tree ends with the line of an item. -/
theorem exists_outlineText_eq (shown : Ref → Text) (depth : Nat) (t : Tree) :
    ∃ s d item, outlineText shown (t.outline depth) =
      s ++ (itemLine d (shown item) ++ ['\n']) ∧ item ∈ t.items := by
  have hne : t.outline depth ≠ [] := by
    obtain ⟨item, children⟩ := t
    exact List.cons_ne_nil _ _
  obtain ⟨entries, ⟨d, item⟩, hlast⟩ := List.eq_nil_or_concat'
    (t.outline depth) |>.resolve_left hne
  have hitem : item ∈ t.items := by
    rw [← Tree.map_snd_outline depth, hlast, List.map_append]
    exact List.mem_append_right _ (List.mem_singleton_self item)
  refine ⟨outlineText shown entries, d, item, ?_, hitem⟩
  rw [hlast, outlineText_append]
  exact congrArg (outlineText shown entries ++ ·) (List.append_nil _)

/-- A diagram stands between blank lines, with one line for every type. -/
theorem text_write_tree {e : Emission} (he : e.writer.Coherent) (hindents : e.writer.indents = [])
    (hlevel : e.listLevel = 0) (followed : Bool) (t : Tree)
    (h : ∀ item ∈ t.items, WrittenAs (f item) (shown item)) :
    (write followed (.list (treeItems f t)) e).writer.text =
      e.writer.ensureSkippedLine.text ++ outlineText shown (t.outline 0) ++ ['\n'] := by
  have hskip := Writer.Grows.ensureSkippedLine e.writer
  have hskipped := he.grows hskip
  have hopened : ended ⟨e.writer.ensureSkippedLine, e.insideTable, 1⟩ =
      e.writer.ensureSkippedLine.text := by
    rw [ended, Writer.text_ensureNewLine hskipped, if_pos (atLineStart_ensureSkippedLine he),
      List.append_nil]
  have hitems := ended_writeItems 0 ⟨e.writer.ensureSkippedLine, e.insideTable, 1⟩ hskipped
    (hskip.indents_eq.trans hindents) rfl t h
  obtain ⟨s, d, item, hlast, hitem⟩ := exists_outlineText_eq shown 0 t
  rw [hopened, hlast, ← List.append_assoc] at hitems
  rw [text_write_list he hindents hlevel followed hitems (oneLine_itemLine (h item hitem).oneLine d)
    (List.append_ne_nil_of_right_ne_nil _ (List.cons_ne_nil _ _)), hlast, List.append_assoc _ s]

/-! ## Reading them back -/

/-- The depth and the text of an item. -/
def itemOf? (line : Text) : Option (Nat × Ref) :=
  match line.dropWhile (· == ' ') with
  | '-' :: ' ' :: t => some ((line.takeWhile (· == ' ')).length / 4, .label t)
  | _ => none

/-- The trees that the items in a text show. -/
def readTrees (text : Text) : List Tree := Tree.nest ((Text.splitAt '\n' text).filterMap itemOf?)

theorem itemOf?_itemLine (depth : Nat) (t : Text) :
    itemOf? (itemLine depth t) = some (depth, .label t) := by
  have hspaces : (List.replicate (4 * depth) ' ').all (· == ' ') = true := by simp
  have hbullet : ∀ c ∈ ('-' :: ' ' :: t).head?, (c == ' ') = false := by
    rintro c hc
    obtain rfl : '-' = c := Option.some.inj hc
    rfl
  rw [itemOf?, itemLine, Text.dropWhile_run hspaces hbullet, Text.takeWhile_run hspaces hbullet]
  simp

/-- The lines of a diagram and the blank one behind them. -/
theorem splitAt_outlineText {entries : List (Nat × Ref)}
    (h : ∀ entry ∈ entries, Text.OneLine (shown entry.2)) :
    Text.splitAt '\n' (outlineText shown entries ++ ['\n']) =
      (entries.map fun entry => itemLine entry.1 (shown entry.2)) ++ [[], []] := by
  rw [outlineText, Text.splitAt_flatMap_lines]
  · rfl
  · rintro line hline
    obtain ⟨entry, hentry, rfl⟩ := List.mem_map.mp hline
    exact (oneLine_itemLine (h entry hentry) entry.1).1

theorem oneLine_of_mem_outline (h : ∀ item ∈ t.items, Text.OneLine (shown item)) (depth : Nat) :
    ∀ entry ∈ t.outline depth, Text.OneLine (shown entry.2) := fun entry hentry =>
  h entry.2 (Tree.map_snd_outline depth t ▸ List.mem_map_of_mem (f := Prod.snd) hentry)

/-- A tree is read back from its diagram, with what is shown of the types. -/
theorem readTrees_outlineText (h : ∀ item ∈ t.items, Text.OneLine (shown item)) :
    readTrees (outlineText shown (t.outline 0) ++ ['\n']) =
      [t.mapItems fun item => .label (shown item)] := by
  have hlines : (t.outline 0).filterMap (fun entry => itemOf? (itemLine entry.1 (shown entry.2))) =
      (t.mapItems fun item => .label (shown item)).outline 0 := by
    rw [Tree.outline_mapItems, ← List.filterMap_eq_map]
    exact congrArg (List.filterMap · _) (funext fun entry => itemOf?_itemLine _ _)
  rw [readTrees, splitAt_outlineText (oneLine_of_mem_outline h 0), List.filterMap_append,
    List.filterMap_map]
  exact (congrArg Tree.nest ((List.append_nil _).trans hlines)).trans (Tree.nest_outline 0 _)

/-! ## Diagrams of pages -/

namespace Env

/-- How a type is written in a diagram. -/
def treeShown (env : Env) (file : Text) (current : Address) : Ref → Text
  | .label name => plainLine (some ' ') name
  | .declaration a =>
    let name := env.root.scopedName a
    if a = current then ("<b>" : Text) ++ plainLine (some '>') name ++ ("</b>" : Text)
    else linkText name (env.router.linkFrom env.root file a)

/-- Nothing that a diagram shows of a type breaks the line. -/
def OnLine (env : Env) (file : Text) (current : Address) : Ref → Prop
  | .label name => Text.OneLine name
  | .declaration a => Text.OneLine (env.root.scopedName a) ∧
    (a ≠ current → Text.OneLine (env.router.linkFrom env.root file a))

theorem linkFrom_ne_nil (r : Router) (root : Declaration) (file : Text) (a : Address) :
    r.linkFrom root file a ≠ [] := by
  intro hnil
  have hdots := starts_with_dots (relativePath (folderOf file) (r.locate root a).path)
  have hpath : dotted (relativePath (folderOf file) (r.locate root a).path) <+:
      r.linkFrom root file a := path_prefix_href ⟨_, _⟩
  rw [hnil, List.prefix_nil] at hpath
  rw [hpath] at hdots
  rcases hdots with ⟨_, ⟨⟩⟩ | ⟨_, ⟨⟩⟩

theorem writtenAs_treeText {item : Ref} (h : env.OnLine file a item) :
    WrittenAs (env.treeText file a item) (env.treeShown file a item) := by
  cases item with
  | label name => exact .plainText h
  | declaration b =>
    unfold treeText treeShown
    dsimp only
    split
    · exact .bold h.1
    · rename_i hb
      exact .link (h.2 hb) (linkFrom_ne_nil _ _ _ _) _

end Env

/-- The list that a diagram is made of is written as one line for every type of the tree, in the
order of the tree: four spaces for each level above it, a hyphen and what is shown of the type. A
blank line follows, and the tree is read back from that text. -/
theorem emit_treeList (henv : env.grammar = .standard) (t : Tree)
    (h : ∀ item ∈ t.items, env.OnLine file a item) :
    ∃ ns text, env.treeList file a [t] = .ok ns ∧
      (∀ resolver?, emit resolver? (.list ns) = pure text) ∧
      Text.splitAt '\n' text =
        ((t.outline 0).map fun entry => itemLine entry.1 (env.treeShown file a entry.2)) ++
          [[], []] ∧
      readTrees text = [t.mapItems fun item => .label (env.treeShown file a item)] := by
  have hwritten := fun item hitem => Env.writtenAs_treeText (h item hitem)
  have hlines := fun item hitem => (hwritten item hitem).oneLine
  have hlist : treeItemsAll (env.treeText file a) [t] = treeItems (env.treeText file a) t :=
    List.append_nil _
  have hsettled := Settled.list <| settled_treeItems t fun item hitem =>
    (hwritten item hitem).toSettled
  have htext := text_write_tree Writer.Coherent.empty rfl rfl false t hwritten (e := .initial)
  have hgrows := (frames_write (.list (treeItems (env.treeText file a) t)) false).grows .initial
  have hended : (write false (.list (treeItems (env.treeText file a) t))
      .initial).writer.atLineStart = true := by
    rw [(Writer.Coherent.empty.grows hgrows).atLineStart_iff, htext]
    exact .inr List.getLast?_concat
  refine ⟨_, outlineText (env.treeShown file a) (t.outline 0) ++ ['\n'],
    Env.treeList_eq henv file a [t], fun resolver? => ?_,
    splitAt_outlineText (oneLine_of_mem_outline hlines 0), readTrees_outlineText hlines⟩
  rw [hlist, hsettled.emit_eq, Writer.text_ensureNewLine (Writer.Coherent.empty.grows hgrows),
    if_pos hended, List.append_nil, htext]
  rfl

/-- The pages of the zoo. -/
def zooEnv : Env := ⟨zoo, [], [], ⟨".md"⟩, .standard, .null⟩

def catPage : Text := "namespaces/wild/classes/cat.md"

/-- A diagram of cats, with names that need escapes and one that is empty. -/
def catTree : Tree :=
  .node (.label " A <T> ") [
    .node (.declaration [0, 1]) [.leaf (.declaration [0, 0, 0]), .leaf (.label "")],
    .leaf (.label "B|C")]

theorem onLine_catTree : ∀ item ∈ catTree.items, zooEnv.OnLine catPage [0, 0, 0] item := by
  have hitems : catTree.items = [.label " A <T> ", .declaration [0, 1], .declaration [0, 0, 0],
      .label "", .label "B|C"] := rfl
  rw [hitems]
  simp only [List.forall_mem_cons]
  exact ⟨show Text.OneLine _ by decide, ⟨by decide, fun _ => by decide⟩,
    ⟨by decide, fun h => absurd rfl h⟩, show Text.OneLine _ by decide,
    show Text.OneLine _ by decide, List.forall_mem_nil _⟩

theorem emit_treeList_of_cats :
    ((catTree.outline 0).map fun entry =>
      itemLine entry.1 (zooEnv.treeShown catPage [0, 0, 0] entry.2)) =
        (["-  A &lt;T&gt; ", "    - [Dog](../../../classes/dog.md)", "        - <b>Wild.Cat</b>",
          "        - ", "    - B\\|C"] : List Text) ∧
    ∃ ns text, zooEnv.treeList catPage [0, 0, 0] [catTree] = .ok ns ∧
      (∀ resolver?, emit resolver? (.list ns) = pure text) ∧
      Text.splitAt '\n' text = ((catTree.outline 0).map fun entry =>
        itemLine entry.1 (zooEnv.treeShown catPage [0, 0, 0] entry.2)) ++ [[], []] ∧
      readTrees text =
        [catTree.mapItems fun item => .label (zooEnv.treeShown catPage [0, 0, 0] item)] :=
  ⟨by decide, emit_treeList rfl catTree onLine_catTree⟩

end ApiReference.Page
