import ApiReference.Proofs.Scope.Clauses
import ApiReference.Proofs.Scope.Nearest

/-!
# The layout of base type clauses

A clause may have blanks around its dots and at its ends, and type arguments behind its
name.  None of this matters: a clause in any layout (`Clause`) leads where its names
joined by dots alone lead, and gives the same notices (`Clause.baseType_text`).
-/

namespace ApiReference.Scope

open Declaration

variable {root : Declaration} {types : TypeMap} {origin : Address} {clause clause' name : Text}

/-- A clause in some layout: identifiers with dots between them, blanks around the dots and around
the whole, and type arguments or none. -/
structure Clause where
  lead : Text
  first : Text
  joints : List Joint
  arguments : Text
  trail : Text
  isBlank_lead : lead.all Text.isBlank = true
  isTypeIdentifier_first : isTypeIdentifier first = true
  arguments_form : Arguments arguments
  isBlank_trail : trail.all Text.isBlank = true

/-- What a clause that is read as a name leads to depends on the name alone. -/
theorem baseType_congr (h : baseName? (Text.trim clause) = some name)
    (h' : baseName? (Text.trim clause') = some name) :
    baseType root types origin clause = baseType root types origin clause' := by
  have hempty : ∀ {t : Text}, baseName? t = some name → ¬t.isEmpty = true := by
    intro t ht hnil
    rw [List.isEmpty_iff.mp hnil] at ht
    cases ht
  rw [baseType, baseType, if_neg (hempty h), if_neg (hempty h'), h, h']

namespace Clause

/-- The clause as it is written. -/
def text (c : Clause) : Text :=
  c.lead ++ (c.first ++ c.joints.flatMap Joint.text ++ c.arguments) ++ c.trail

/-- The names of the clause, outermost first. -/
def names (c : Clause) : List Text := c.first :: c.joints.map Joint.name

/-- The plain name: the names of the clause with dots alone between them. -/
def plain (c : Clause) : Text := Text.join "." c.names

theorem isTypeIdentifier_of_mem_names (c : Clause) :
    ∀ id ∈ c.names, isTypeIdentifier id = true := by
  intro id hid
  rcases List.mem_cons.mp hid with rfl | hid
  · exact c.isTypeIdentifier_first
  · obtain ⟨j, -, rfl⟩ := List.mem_map.mp hid
    exact j.isTypeIdentifier_name

/-- The blanks around a clause are trimmed, and no others. -/
theorem trim_text (c : Clause) :
    Text.trim c.text = c.first ++ c.joints.flatMap Joint.text ++ c.arguments := by
  have hlead : ∀ b ∈ c.lead, Text.isBlank b = true := List.all_eq_true.mp c.isBlank_lead
  have htrail : Text.trimEnd c.trail = [] := by
    rw [Text.trimEnd, List.reverse_eq_nil_iff, List.dropWhile_eq_nil_iff]
    intro b hb
    exact List.all_eq_true.mp c.isBlank_trail b (List.mem_reverse.mp hb)
  have hcore := trim_joints c.isTypeIdentifier_first c.joints c.arguments_form
  obtain ⟨hstart, hend⟩ := Text.trim_eq_self_iff.mp hcore
  rw [text, List.append_assoc, Text.trim_append_blank hlead, Text.trim]
  have hgoes : Text.trimStart
      (c.first ++ c.joints.flatMap Joint.text ++ c.arguments ++ c.trail) =
        c.first ++ c.joints.flatMap Joint.text ++ c.arguments ++ c.trail := by
    rw [List.append_assoc, List.append_assoc]
    exact trimStart_append c.isTypeIdentifier_first _
  rw [hgoes, Text.trimEnd_append_blank _ htrail, hend]

/-- In any layout the plain name is read. -/
theorem baseName?_trim_text (c : Clause) : baseName? (Text.trim c.text) = some c.plain := by
  rw [trim_text]
  exact baseName?_joints c.isTypeIdentifier_first c.joints c.arguments_form

theorem baseName?_trim_plain (c : Clause) : baseName? (Text.trim c.plain) = some c.plain := by
  have hne : c.names ≠ [] := List.cons_ne_nil _ _
  have htrim := trim_join c.isTypeIdentifier_of_mem_names hne .absent
  have hread := baseName?_join c.isTypeIdentifier_of_mem_names hne .absent
  rw [List.append_nil] at htrim hread
  rw [plain, htrim, hread]

/-- Whatever its layout and its type arguments are, a clause leads where its plain name leads: to a
declaration of the type map, or to the plain name itself. -/
theorem baseType_text (root : Declaration) (types : TypeMap) (origin : Address) (c : Clause) :
    baseType root types origin c.text = baseType root types origin c.plain ∧
    ((∃ full a, types.lookup full = some a ∧
        (baseType root types origin c.text).value = some (.declaration a)) ∨
      (baseType root types origin c.text).value = some (.label c.plain)) := by
  refine ⟨baseType_congr c.baseName?_trim_text c.baseName?_trim_plain, ?_⟩
  rw [value_baseType c.baseName?_trim_text]
  cases hresolve : resolve root types origin c.plain with
  | none => exact .inr rfl
  | some a =>
    obtain ⟨-, b, -, hlookup⟩ := resolve_eq_some hresolve
    exact .inl ⟨_, a, hlookup, rfl⟩

/-- The name of a class on several lines, with type arguments inside type arguments. -/
def spread : Clause where
  lead := "\n  "
  first := "Shelter"
  joints := [⟨"\n    ", "\t", "$den", rfl, rfl, rfl⟩, ⟨[], " ", "Dog", rfl, rfl, rfl⟩]
  arguments := " " ++ '<' :: "Map<string,\n  Set<Dog>>".toList ++ ['>']
  trail := " \n"
  isBlank_lead := rfl
  isTypeIdentifier_first := rfl
  arguments_form := .bracketed _ rfl
  isBlank_trail := rfl

/-- A package with the class that `spread` names, and another class beside its namespaces. -/
def denOfShelter : Declaration :=
  ⟨.plain .package "pound", [⟨.plain .entryPoint [], [⟨.plain .classType "Wolf", []⟩,
    ⟨.plain .nameSpace "Shelter", [⟨.plain .nameSpace "$den",
      [⟨.plain .classType "Dog", []⟩]⟩]⟩]⟩]⟩

theorem baseType_spread :
    let types := (TypeMap.of denOfShelter).value
    spread.text = "\n  Shelter\n    .\t$den. Dog <Map<string,\n  Set<Dog>>> \n" ∧
    spread.plain = "Shelter.$den.Dog" ∧
    (baseType denOfShelter types [0, 0] spread.plain).value = some (.declaration [0, 1, 0, 0]) ∧
    baseType denOfShelter types [0, 0] spread.text =
      baseType denOfShelter types [0, 0] spread.plain ∧
    ((∃ full a, types.lookup full = some a ∧
        (baseType denOfShelter types [0, 0] spread.text).value = some (.declaration a)) ∨
      (baseType denOfShelter types [0, 0] spread.text).value = some (.label spread.plain)) := by
  intro types
  have hvalue : (baseType denOfShelter types [0, 0] spread.plain).value =
      some (.declaration [0, 1, 0, 0]) := by
    decide +kernel
  exact ⟨by decide +kernel, by decide +kernel, hvalue,
    baseType_text denOfShelter types [0, 0] spread⟩

end Clause

end ApiReference.Scope
