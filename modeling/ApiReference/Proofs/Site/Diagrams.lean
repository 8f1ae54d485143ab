import ApiReference.Proofs.Inheritance.Hierarchy
import ApiReference.Proofs.Site.Pages

/-!
# Bold types in class diagrams

On the page of a class the diagram of its class tree shows the class in bold, once for
every time that the tree has it.  The list of a diagram follows its tree
(`boldCount_treeNodes`), so the number of bold nodes is the number of occurrences, and
that is one unless the class implements a type that its parent class extends.
-/

namespace ApiReference.Page

open Declaration Doc Inheritance Node Scope

variable {env : Env} {file title : Text} {ns ns' : List Node} {a : Address} {place : Place}

/-! ## Bold nodes -/

def isBold : Node → Bool
  | .emphasis _ bold _ => bold
  | _ => false

/-- The number of bold nodes in some trees. -/
def boldCount (ns : List Node) : Nat := (insideAll ns).countP isBold

theorem boldCount_append (ns ns' : List Node) :
    boldCount (ns ++ ns') = boldCount ns + boldCount ns' := by
  rw [boldCount, insideAll_append, List.countP_append]
  rfl

/-- A list is not bold itself. -/
theorem boldCount_list (ns : List Node) : boldCount [.list ns] = boldCount ns := by
  rw [boldCount, insideAll, inside, insideAll, List.append_nil, List.countP_cons_of_neg]
  · rfl
  · exact Bool.false_ne_true

/-! ## Diagrams -/

/-- Only the type that a diagram is about is bold. -/
theorem boldCount_treeText (env : Env) (file : Text) (a : Address) (item : Ref) :
    boldCount [env.treeText file a item] = if item = .declaration a then 1 else 0 := by
  cases item with
  | label name => exact (if_neg (by simp)).symm
  | declaration b =>
    unfold Env.treeText
    dsimp only
    split
    · rename_i hb
      rw [if_pos (congrArg Ref.declaration hb)]
      rfl
    · rename_i hb
      rw [if_neg fun heq => hb (Ref.declaration.inj heq)]
      rfl

mutual

/-- The nodes of a diagram are bold wherever the tree has the type that the diagram is about. -/
theorem boldCount_treeNodes {t : Tree} {ns : List Node} (h : env.treeNodes file a t = .ok ns) :
    boldCount ns = t.occurrences a := by
  match t, h with
  | .node item children, h =>
    unfold Env.treeNodes at h
    obtain ⟨text, htext, h⟩ := bind_eq_ok.mp h
    obtain rfl := eq_of_permit htext
    rw [Tree.occurrences_node, ← boldCount_treeText env file a item]
    split at h
    · rename_i hnil
      obtain rfl := Except.ok.inj h
      rw [List.isEmpty_iff.mp hnil, Tree.occurrencesAll_nil, Nat.zero_add]
    · obtain ⟨below, hbelow, h⟩ := bind_eq_ok.mp h
      obtain ⟨list, hlist, h⟩ := bind_eq_ok.mp h
      obtain rfl := eq_of_permit hlist
      obtain rfl := Except.ok.inj h
      rw [boldCount_append, boldCount_list, boldCount_treeList hbelow, Nat.add_comm]

theorem boldCount_treeList {ts : List Tree} {ns : List Node}
    (h : env.treeList file a ts = .ok ns) : boldCount ns = Tree.occurrencesAll ts a := by
  match ts, h with
  | [], h =>
    obtain rfl := Except.ok.inj h
    rfl
  | t :: ts, h =>
    unfold Env.treeList at h
    obtain ⟨first, hfirst, h⟩ := bind_eq_ok.mp h
    obtain ⟨more, hmore, h⟩ := bind_eq_ok.mp h
    obtain rfl := Except.ok.inj h
    rw [boldCount_append, boldCount_treeNodes hfirst, boldCount_treeList hmore,
      Tree.occurrencesAll_cons]

end

/-- A diagram that is shown has a bold node for every occurrence. -/
theorem boldCount_diagram {tree : Tree} (hentry : (env.graph.links? a).isSome)
    (h : env.diagram place a title tree = .ok ns) :
    boldCount ns = if tree.children.isEmpty then 0 else tree.occurrences a := by
  have hfound : (env.graph.links? a).isNone = false := by
    rw [← Option.not_isSome, hentry, Bool.not_true]
  unfold Env.diagram at h
  rw [hfound, Bool.false_or] at h
  split at h
  · rename_i hnone
    obtain rfl := Except.ok.inj h
    exact (if_pos hnone).symm
  · rename_i hshown
    obtain ⟨n, hn, h⟩ := bind_eq_ok.mp h
    obtain ⟨first, hfirst, h⟩ := bind_eq_ok.mp h
    obtain ⟨list, hlist, h⟩ := bind_eq_ok.mp h
    obtain ⟨last, hlast, h⟩ := bind_eq_ok.mp h
    obtain rfl := eq_of_permit hfirst
    obtain rfl := eq_of_permit hlast
    obtain rfl := Except.ok.inj h
    have hheading : boldCount [n] = 0 := by
      unfold Env.heading at hn
      dsimp only at hn
      split at hn
      · obtain rfl := Except.ok.inj hn
        rfl
      · cases hn
    rw [if_neg hshown, boldCount_append, hheading, boldCount_list, boldCount_treeList hlist,
      Tree.occurrencesAll_singleton, Nat.zero_add]

end ApiReference.Page

namespace ApiReference.Site

open Declaration Doc Inheritance Markdown ApiReference.Page

variable {config : Json} {file text : Text} {root : Declaration} {env : Env} {a : Address}
variable {settings : Settings} {grammar : Grammar} {place : Place}

/-- Pages are built with the graph of their tree. -/
theorem linkedBothWays_envOf (h : (envOf settings grammar root).outcome = .ok env) :
    LinkedBothWays root env.graph := by
  unfold envOf at h
  rw [Traced.outcome_bind] at h
  obtain ⟨types, -, h⟩ := bind_eq_ok.mp h
  rw [Traced.outcome_bind] at h
  obtain ⟨graph, hgraph, h⟩ := bind_eq_ok.mp h
  rw [Traced.outcome_bind] at h
  obtain ⟨router, -, h⟩ := bind_eq_ok.mp h
  obtain rfl := Except.ok.inj hgraph
  obtain rfl := Except.ok.inj h
  exact graphOf_linkedBothWays root types

/-- In a package without inheritance cycles the class tree of every class shows the class itself,
and once unless the class implements a type that its parent class extends, directly or not. If the
diagram of the tree is not left out, it has as many bold nodes. -/
theorem classDiagram_bold (hload : (packageOfText config file text).outcome = .ok root)
    (henv : (envOf .standard .standard root).outcome = .ok env) (hacyclic : Acyclic env.graph)
    (hclass : root.kind? a = some .classType) (hplace : 1 ≤ place.level) :
    0 < (classTree env.graph a).occurrences a ∧
      ((classTree env.graph a).occurrences a = 1 ↔ ¬ ImplementsAncestor env.graph a) ∧
      ∃ nodes, env.diagram place a "Class Hierarchy" (classTree env.graph a) = .ok nodes ∧
        boldCount nodes = if (classTree env.graph a).children.isEmpty then 0
          else (classTree env.graph a).occurrences a := by
  have hlinked := linkedBothWays_envOf henv
  obtain ⟨hpos, hone⟩ := occurrences_classTree hlinked hacyclic hclass
  have hextension : Settings.standard.extension = .text ".md" := rfl
  have hlanguage : opensFence Settings.standard.language = true := rfl
  obtain ⟨env', henv', he, hroot, -⟩ :=
    yields_envOf hextension hlanguage (packageOfText_eq_ok hload).2
  obtain rfl : env' = env := Except.ok.inj (henv'.symm.trans henv)
  have hentry : (env'.graph.links? a).isSome := by
    obtain ⟨⟨b, l⟩, hmem, rfl⟩ := List.mem_map.mp ((hlinked.mem_keys a).mpr (.inl hclass))
    rw [Graph.links?, (lookup_eq_some_iff_mem hlinked.nodup_keys).mpr hmem]
    rfl
  have hwithin : TreeWithin env'.root (classTree env'.graph a) := by
    refine treeWithin_classTree he.graph ?_
    rw [hroot]
    exact mem_walk_of_kind? hclass
  obtain ⟨nodes, hnodes, -⟩ := he.yields_diagram hplace a "Class Hierarchy" hwithin
  exact ⟨hpos, hone, nodes, hnodes, boldCount_diagram hentry hnodes⟩

/-- The description of a package with three classes, each of which extends the one before. The last
one may also implement a range of its tokens. -/
def generations (implemented : Text) : Text :=
  "\x7b\"kind\":\"Package\",\"name\":\"kin\",\"members\":[" ++
  "\x7b\"kind\":\"EntryPoint\",\"members\":[" ++
  "\x7b\"kind\":\"Class\",\"name\":\"A\"\x7d," ++
  "\x7b\"kind\":\"Class\",\"name\":\"B\",\"excerptTokens\":[\x7b\"text\":\"A\"\x7d]," ++
  "\"extendsTokenRange\":\x7b\"startIndex\":0,\"endIndex\":1\x7d\x7d," ++
  "\x7b\"kind\":\"Class\",\"name\":\"C\"," ++
  "\"excerptTokens\":[\x7b\"text\":\"B\"\x7d,\x7b\"text\":\"A\"\x7d]," ++
  "\"extendsTokenRange\":\x7b\"startIndex\":0,\"endIndex\":1\x7d," ++
  "\"implementsTokenRanges\":[" ++ implemented ++ "]\x7d]\x7d]\x7d"

/-- A package that was read, and what its pages are built with. -/
def built (text : Text) : Traced (Declaration × Env) := do
  let root ← packageOfText .null [] text
  return (root, ← envOf .standard .standard root)

theorem of_built {p : Declaration × Env} (h : (built text).outcome = .ok p) :
    (packageOfText .null [] text).outcome = .ok p.1 ∧
      (envOf .standard .standard p.1).outcome = .ok p.2 := by
  unfold built at h
  rw [Traced.outcome_bind] at h
  obtain ⟨root, hload, h⟩ := bind_eq_ok.mp h
  rw [Traced.outcome_bind] at h
  obtain ⟨env, henv, h⟩ := bind_eq_ok.mp h
  obtain rfl := Except.ok.inj h
  exact ⟨hload, henv⟩

theorem classDiagram_bold_of_generations :
    ∃ root env, (packageOfText .null [] (generations [])).outcome = .ok root ∧
      (envOf .standard .standard root).outcome = .ok env ∧ Acyclic env.graph ∧
      root.kind? [0, 2] = some .classType ∧
      0 < (classTree env.graph [0, 2]).occurrences [0, 2] ∧
      ((classTree env.graph [0, 2]).occurrences [0, 2] = 1 ↔
        ¬ ImplementsAncestor env.graph [0, 2]) ∧
      ∃ nodes, env.diagram ⟨"classes/c.md", 1⟩ [0, 2] "Class Hierarchy"
          (classTree env.graph [0, 2]) = .ok nodes ∧
        boldCount nodes = if (classTree env.graph [0, 2]).children.isEmpty then 0
          else (classTree env.graph [0, 2]).occurrences [0, 2] := by
  have hbuilt : (built (generations [])).outcome.toOption.any (fun p => decide
      (Falls List.sum p.2.graph ∧ p.1.kind? [0, 2] = some .classType)) = true := by
    decide +kernel
  obtain ⟨⟨root, env⟩, hp, hfacts⟩ := exists_eq_ok_and hbuilt
  obtain ⟨hfalls, hclass⟩ := of_decide_eq_true hfacts
  obtain ⟨hload, henv⟩ := of_built hp
  exact ⟨root, env, hload, henv, hfalls.acyclic, hclass,
    classDiagram_bold hload henv hfalls.acyclic hclass (by decide)⟩

/-- A class that also implements the class that its parent class extends occurs twice, and its
diagram has two bold nodes. -/
theorem classDiagram_bold_twice :
    ∃ root env nodes,
      (packageOfText .null [] (generations "\x7b\"startIndex\":1,\"endIndex\":2\x7d")).outcome =
        .ok root ∧
      (envOf .standard .standard root).outcome = .ok env ∧ Acyclic env.graph ∧
      root.kind? [0, 2] = some .classType ∧
      (classTree env.graph [0, 2]).occurrences [0, 2] = 2 ∧
      env.diagram ⟨"classes/c.md", 1⟩ [0, 2] "Class Hierarchy"
        (classTree env.graph [0, 2]) = .ok nodes ∧ boldCount nodes = 2 := by
  have hbuilt : (built (generations "\x7b\"startIndex\":1,\"endIndex\":2\x7d")).outcome.toOption.any
      (fun p => decide (Falls List.sum p.2.graph ∧ p.1.kind? [0, 2] = some .classType ∧
        (classTree p.2.graph [0, 2]).occurrences [0, 2] = 2 ∧
        (p.2.diagram ⟨"classes/c.md", 1⟩ [0, 2] "Class Hierarchy"
          (classTree p.2.graph [0, 2])).toOption.any (fun nodes =>
            boldCount nodes == 2))) = true := by
    decide +kernel
  obtain ⟨⟨root, env⟩, hp, hfacts⟩ := exists_eq_ok_and hbuilt
  obtain ⟨hfalls, hclass, htwice, hdiagram⟩ := of_decide_eq_true hfacts
  obtain ⟨nodes, hnodes, hbold⟩ := exists_eq_ok_and hdiagram
  obtain ⟨hload, henv⟩ := of_built hp
  exact ⟨root, env, nodes, hload, henv, hfalls.acyclic, hclass, htwice, hnodes,
    beq_iff_eq.mp hbold⟩

end ApiReference.Site
