import ApiReference.Proofs.Page.Summaries
import ApiReference.Proofs.Site.Diagrams
import ApiReference.Proofs.Site.MemberTables

/-!
# The summaries of members in packages

In every package that was read, members are described by the summaries that they go
back to.  A comment whose text is left out, such as one that only asks to inherit, is
read as an empty paragraph, and no summary behind it is shown.
-/

namespace ApiReference.Site

open Declaration Doc Inheritance Markdown ApiReference.Page

variable {config : Json} {file text : Text} {root : Declaration}

/-- Whatever package was read, the row of every member of a type and the details of every own one
show the first summary that has any block among its own and those that it goes back to, and with
the standard grammar they can always be built. This is the first summary with something to see
exactly if no summary in front of it is made of empty paragraphs only. -/
theorem memberSummaries_of_text (hload : (packageOfText config file text).outcome = .ok root) :
    (∀ env place a nodes, env.root = root → 1 ≤ place.level →
      (env.memberTables place a).outcome = .ok nodes → MembersDescribed env place a nodes) ∧
    (∀ settings env place a, opensFence settings.language = true →
      (envOf settings .standard root).outcome = .ok env → 1 ≤ place.level →
      ∃ nodes, (env.memberTables place a).outcome = .ok nodes) ∧
    (∀ chain, ShowsFirst root chain (firstSummary root chain) ↔ Unhidden root chain) ∧
    ∀ a, hasContent (summaryAt root a) = false ↔ ∀ n ∈ summaryAt root a, n = .paragraph [] := by
  refine ⟨?_, ?_, fun chain => showsFirst_iff, ?_⟩
  · rintro env place a nodes rfl hplace hnodes
    exact Env.ensures_memberTables_described env hplace a nodes hnodes
  · intro settings env place a hlanguage henv hplace
    exact exists_memberTables hload hlanguage henv hplace a
  · exact hasContent_summaryAt_eq_false_iff (packageOfText_read hload).2

/-- The description of a package with a class that overrides a method without a comment, and another
one with a comment that only asks to inherit. -/
def den : Text :=
  "\x7b\"kind\":\"Package\",\"name\":\"den\",\"members\":[" ++
  "\x7b\"kind\":\"EntryPoint\",\"members\":[" ++
  "\x7b\"kind\":\"Class\",\"name\":\"Animal\",\"members\":[" ++
  "\x7b\"kind\":\"Method\",\"name\":\"eat\",\"docComment\":\"/** Eats. */\"\x7d," ++
  "\x7b\"kind\":\"Method\",\"name\":\"rest\",\"docComment\":\"/** Rests. */\"\x7d]\x7d," ++
  "\x7b\"kind\":\"Class\",\"name\":\"Bear\"," ++
  "\"excerptTokens\":[\x7b\"text\":\"Animal\"\x7d]," ++
  "\"extendsTokenRange\":\x7b\"startIndex\":0,\"endIndex\":1\x7d,\"members\":[" ++
  "\x7b\"kind\":\"Method\",\"name\":\"eat\"\x7d," ++
  "\x7b\"kind\":\"Method\",\"name\":\"rest\"," ++
  "\"docComment\":\"/** \x7b@inheritDoc\x7d */\"\x7d]\x7d]\x7d]\x7d"

/-- What the two methods of the bear go back to, and which summaries are there. -/
theorem built_den : ∃ root env, (packageOfText .null [] den).outcome = .ok root ∧
    (envOf .standard .standard root).outcome = .ok env ∧
    root.membersAt [0, 1] = [[0, 1, 0], [0, 1, 1]] ∧
    chainOf root env.graph [0, 1] (root.nameAt [0, 1, 0]) = [[0, 0, 0]] ∧
    chainOf root env.graph [0, 1] (root.nameAt [0, 1, 1]) = [[0, 0, 1]] ∧
    Unhidden root [[0, 1, 0], [0, 0, 0]] ∧ ¬Unhidden root [[0, 1, 1], [0, 0, 1]] ∧
    hasContent (summaryAt root [0, 0, 0]) = true ∧ hasContent (summaryAt root [0, 0, 1]) = true ∧
    hasContent (firstSummary root [[0, 1, 1], [0, 0, 1]]) = false := by
  have hbuilt : (built den).outcome.toOption.any (fun p => decide (
      (p.2.graph.parentsOf [0, 1] = [.declaration [0, 0]] ∧ p.2.graph.parentsOf [0, 0] = []) ∧
      p.1.membersAt [0, 1] = [[0, 1, 0], [0, 1, 1]] ∧
      named p.1 (p.1.membersAt [0, 0]) (p.1.nameAt [0, 1, 0]) = [[0, 0, 0]] ∧
      named p.1 (p.1.membersAt [0, 0]) (p.1.nameAt [0, 1, 1]) = [[0, 0, 1]] ∧
      Unhidden p.1 [[0, 1, 0], [0, 0, 0]] ∧ ¬Unhidden p.1 [[0, 1, 1], [0, 0, 1]] ∧
      hasContent (summaryAt p.1 [0, 0, 0]) = true ∧ hasContent (summaryAt p.1 [0, 0, 1]) = true ∧
      hasContent (firstSummary p.1 [[0, 1, 1], [0, 0, 1]]) = false)) = true := by
    decide +kernel
  obtain ⟨⟨root, env⟩, hp, hfacts⟩ := exists_eq_ok_and hbuilt
  obtain ⟨⟨hparents, hnone⟩, hmembers, heat, hrest, hsummaries⟩ := of_decide_eq_true hfacts
  obtain ⟨hload, henv⟩ := of_built hp
  -- the search for ancestors is not evaluated, but there is just one to be found
  have hchain : ∀ name, chainOf root env.graph [0, 1] name =
      named root (root.membersAt [0, 0]) name := by
    intro name
    rw [chainOf_eq, ancestors_of_single hparents hnone (by decide), List.flatMap_singleton]
  exact ⟨root, env, hload, henv, hmembers, (hchain _).trans heat, (hchain _).trans hrest,
    hsummaries⟩

theorem memberSummaries_of_den : ∃ root env nodes,
    (packageOfText .null [] den).outcome = .ok root ∧
    (envOf .standard .standard root).outcome = .ok env ∧
    (env.memberTables ⟨"classes/bear.md", 1⟩ [0, 1]).outcome = .ok nodes ∧
    MembersDescribed env ⟨"classes/bear.md", 1⟩ [0, 1] nodes ∧
    root.membersAt [0, 1] = [[0, 1, 0], [0, 1, 1]] ∧
    chainOf root env.graph [0, 1] (root.nameAt [0, 1, 0]) = [[0, 0, 0]] ∧
    ShowsFirst root [[0, 1, 0], [0, 0, 0]] (firstSummary root [[0, 1, 0], [0, 0, 0]]) ∧
    ∃ n ∈ summaryAt root [0, 0, 0], n ≠ .paragraph [] := by
  obtain ⟨root, env, hload, henv, hmembers, hchain, -, hunhidden, -, hcontent, -⟩ := built_den
  obtain ⟨hdescribed, hbuilds, hshows, hblank⟩ := memberSummaries_of_text hload
  have hroot := (envOf_eq_ok henv).1
  obtain ⟨nodes, hnodes⟩ := hbuilds .standard env ⟨"classes/bear.md", 1⟩ [0, 1] rfl henv le_rfl
  refine ⟨root, env, nodes, hload, henv, hnodes, hdescribed env _ _ nodes hroot le_rfl hnodes,
    hmembers, hchain, (hshows _).mpr hunhidden, ?_⟩
  by_contra hnone
  push Not at hnone
  rw [(hblank _).mpr hnone] at hcontent
  cases hcontent

/-- The summary that a method should inherit is not shown if its own comment asks for it. -/
theorem summary_of_rest_hidden : ∃ root env nodes,
    (packageOfText .null [] den).outcome = .ok root ∧
    (envOf .standard .standard root).outcome = .ok env ∧
    (env.memberTables ⟨"classes/bear.md", 1⟩ [0, 1]).outcome = .ok nodes ∧
    MembersDescribed env ⟨"classes/bear.md", 1⟩ [0, 1] nodes ∧
    [0, 1, 1] ∈ root.membersAt [0, 1] ∧
    chainOf root env.graph [0, 1] (root.nameAt [0, 1, 1]) = [[0, 0, 1]] ∧
    hasContent (summaryAt root [0, 0, 1]) = true ∧
    hasContent (firstSummary root [[0, 1, 1], [0, 0, 1]]) = false ∧
    ¬ShowsFirst root [[0, 1, 1], [0, 0, 1]] (firstSummary root [[0, 1, 1], [0, 0, 1]]) := by
  obtain ⟨root, env, hload, henv, hmembers, -, hchain, -, hhidden, -, hcontent, hnothing⟩ :=
    built_den
  have hlanguage : opensFence Settings.standard.language = true := rfl
  have hbuilds : ∃ nodes, (env.memberTables ⟨"classes/bear.md", 1⟩ [0, 1]).outcome = .ok nodes :=
    exists_memberTables hload hlanguage henv le_rfl [0, 1]
  obtain ⟨nodes, hnodes⟩ := hbuilds
  have hown : [0, 1, 1] ∈ root.membersAt [0, 1] := by
    rw [hmembers]
    exact List.mem_cons_of_mem _ (List.mem_cons_self ..)
  exact ⟨root, env, nodes, hload, henv, hnodes,
    Env.ensures_memberTables_described env le_rfl [0, 1] nodes hnodes, hown, hchain, hcontent,
    hnothing, mt showsFirst_iff.mp hhidden⟩

end ApiReference.Site
