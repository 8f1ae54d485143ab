import ApiReference.Proofs.Page.MemberTables
import ApiReference.Proofs.Site.Pages

/-!
# The member tables of packages

Comments are read without anchors and without notes on inheritance.  So in every package
that was read, what the page of a type shows of its members is found on the page again:
each member that the type lists has its one row, and each own one its one anchor.
-/

namespace ApiReference.Site

open Declaration Doc Inheritance Markdown ApiReference.Page

variable {config : Json} {file text : Text} {root : Declaration}

/-- With the standard grammar, the tables of every type of a package that was read can be built. -/
theorem exists_memberTables {settings : Settings} {env : Env} {place : Place}
    (hload : (packageOfText config file text).outcome = .ok root)
    (hlanguage : opensFence settings.language = true)
    (henv : (envOf settings .standard root).outcome = .ok env) (hplace : 1 ≤ place.level)
    (a : Address) : ∃ nodes, (env.memberTables place a).outcome = .ok nodes := by
  obtain ⟨-, hread⟩ := packageOfText_read hload
  have hextension := (envOf_eq_ok henv).2
  obtain ⟨env', henv', he, -⟩ := yields_envOf hextension hlanguage (commented_of_read hread)
  obtain rfl := Except.ok.inj (henv.symm.trans henv')
  obtain ⟨nodes, hnodes, -⟩ := he.yields_memberTables hplace a
  exact ⟨nodes, hnodes⟩

/-- Whatever package was read, the tables on the page of a type show exactly the members that it
lists, group by group, and the details exactly its own ones; and with the standard grammar these
tables can always be built. -/
theorem memberTables_of_text (hload : (packageOfText config file text).outcome = .ok root) :
    (∀ env place a nodes, env.root = root → 1 ≤ place.level →
      (env.memberTables place a).outcome = .ok nodes → MembersShown env place a nodes) ∧
    (∀ settings env place a, opensFence settings.language = true →
      (envOf settings .standard root).outcome = .ok env → 1 ≤ place.level →
      ∃ nodes, (env.memberTables place a).outcome = .ok nodes) := by
  obtain ⟨-, hread⟩ := packageOfText_read hload
  constructor
  · rintro env place a nodes rfl hplace hnodes
    exact Env.ensures_memberTables hplace hread a nodes hnodes
  · intro settings env place a hlanguage henv hplace
    exact exists_memberTables hload hlanguage henv hplace a

/-- The description of a package with a class that inherits, overrides and overloads. -/
def kennel : Text :=
  "\x7b\"kind\":\"Package\",\"name\":\"kennel\",\"members\":[" ++
  "\x7b\"kind\":\"EntryPoint\",\"members\":[" ++
  "\x7b\"kind\":\"Class\",\"name\":\"Animal\",\"members\":[" ++
  "\x7b\"kind\":\"Method\",\"name\":\"eat\"\x7d," ++
  "\x7b\"kind\":\"Method\",\"name\":\"sleep\"\x7d]\x7d," ++
  "\x7b\"kind\":\"Class\",\"name\":\"Dog\"," ++
  "\"excerptTokens\":[\x7b\"text\":\"Animal\"\x7d]," ++
  "\"extendsTokenRange\":\x7b\"startIndex\":0,\"endIndex\":1\x7d,\"members\":[" ++
  "\x7b\"kind\":\"Constructor\",\"name\":\"new\"\x7d," ++
  "\x7b\"kind\":\"Method\",\"name\":\"eat\"\x7d," ++
  "\x7b\"kind\":\"Method\",\"name\":\"eat\",\"overloadIndex\":2\x7d," ++
  "\x7b\"kind\":\"Property\",\"name\":\"count\",\"isStatic\":true\x7d," ++
  "\x7b\"kind\":\"Property\",\"name\":\"barked\"," ++
  "\"docComment\":\"/** On every bark.\\n * @eventProperty */\"\x7d]\x7d]\x7d]\x7d"

theorem memberTables_of_kennel :
    ∃ root env nodes, (packageOfText .null [] kennel).outcome = .ok root ∧
      (envOf .standard .standard root).outcome = .ok env ∧ env.root = root ∧
      (env.memberTables ⟨"classes/dog.md", 1⟩ [0, 1]).outcome = .ok nodes ∧
      MembersShown env ⟨"classes/dog.md", 1⟩ [0, 1] nodes ∧
      root.membersAt [0, 1] = [[0, 1, 0], [0, 1, 1], [0, 1, 2], [0, 1, 3], [0, 1, 4]] ∧
      (root.membersAt [0, 1]).map (groupAt? root) =
        [none, some .methods, some .methods, some .staticProperties, some .events] := by
  have hread : (packageOfText .null [] kennel).outcome.toOption.any (fun root =>
      root.membersAt [0, 1] == [[0, 1, 0], [0, 1, 1], [0, 1, 2], [0, 1, 3], [0, 1, 4]] &&
        (root.membersAt [0, 1]).map (groupAt? root) ==
          [none, some .methods, some .methods, some .staticProperties, some .events]) = true := by
    decide +kernel
  obtain ⟨root, hload, hmembers⟩ := exists_eq_ok_and hread
  obtain ⟨hmembers, hgroups⟩ := Bool.and_eq_true_iff.mp hmembers
  obtain ⟨hshows, hbuilds⟩ := memberTables_of_text hload
  have hextension : Settings.standard.extension = .text ".md" := rfl
  have hlanguage : opensFence Settings.standard.language = true := rfl
  obtain ⟨env, henv, -, hroot, -⟩ :=
    yields_envOf hextension hlanguage (packageOfText_eq_ok hload).2
  obtain ⟨nodes, hnodes⟩ := hbuilds .standard env ⟨"classes/dog.md", 1⟩ [0, 1] hlanguage henv
    (le_refl 1)
  have hshown := hshows env _ _ nodes hroot (le_refl 1) hnodes
  exact ⟨root, env, nodes, hload, henv, hroot, hnodes, hshown, eq_of_beq hmembers,
    eq_of_beq hgroups⟩

end ApiReference.Site
