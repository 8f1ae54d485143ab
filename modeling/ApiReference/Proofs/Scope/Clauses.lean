import ApiReference.Proofs.Scope.Named
import ApiReference.Proofs.Scope.Segments

/-!
# Clauses that join identifiers

A clause that joins identifiers by dots names just that, whatever blanks stand around
the dots and whatever type arguments follow (`baseName?_joints`), and the name goes to
the type of its nearest scope (`resolve_of_first`).  But a name is looked up only if it
starts with a character of a word, and identifiers may start with a dollar sign: such a
clause is a label, even if a type of the package has the name (`value_baseType_join`).
-/

namespace ApiReference.Scope

open Declaration

variable {root : Declaration} {types : TypeMap} {origin a : Address} {c : Char}
variable {id name rest t : Text} {ids : List Text}

/-- An ASCII letter, an underscore or a dollar sign with characters of words and dollar signs after
it. -/
def isTypeIdentifier : Text → Bool
  | [] => false
  | c :: t => isIdentifierStart c && t.all isIdentifierChar

/-- What may follow the name in a clause: nothing, or type arguments in angle brackets. -/
inductive Arguments : Text → Prop
  | absent : Arguments []
  | bracketed {gap : Text} (inner : Text) : gap.all Text.isBlank = true →
      Arguments (gap ++ '<' :: inner ++ ['>'])

/-! ## Characters of identifiers -/

theorem isBlank_of_isIdentifierChar (h : isIdentifierChar c = true) : Text.isBlank c = false := by
  rw [isIdentifierChar, Bool.or_eq_true, beq_iff_eq] at h
  rcases h with hword | rfl
  · exact Text.isBlank_eq_false_of_isWord hword
  · rfl

theorem isIdentifierChar_of_isBlank (h : Text.isBlank c = true) : isIdentifierChar c = false := by
  by_contra hchar
  rw [Bool.not_eq_false] at hchar
  rw [isBlank_of_isIdentifierChar hchar] at h
  cases h

theorem isWord_of_isAlpha (h : c.isAlpha = true) : Text.isWord c = true :=
  isWord_of_isAlphanum (by simp [Char.isAlphanum, h])

theorem isIdentifierChar_of_isIdentifierStart (h : isIdentifierStart c = true) :
    isIdentifierChar c = true := by
  simp only [isIdentifierStart, Bool.or_eq_true, beq_iff_eq] at h
  rcases h with (halpha | rfl) | rfl
  · simp [isIdentifierChar, isWord_of_isAlpha halpha]
  · rfl
  · rfl

/-- Of the characters that identifiers start with, the dollar sign alone is not one of words. -/
theorem isWord_of_isIdentifierStart (h : isIdentifierStart c = true) :
    Text.isWord c = true ↔ c ≠ '$' := by
  simp only [isIdentifierStart, Bool.or_eq_true, beq_iff_eq] at h
  rcases h with (halpha | rfl) | rfl
  · refine iff_of_true (isWord_of_isAlpha halpha) ?_
    rintro rfl
    exact absurd halpha (by decide)
  · decide
  · decide

theorem isTypeIdentifier_cons :
    isTypeIdentifier (c :: t) = true ↔
      isIdentifierStart c = true ∧ t.all isIdentifierChar = true := by
  rw [isTypeIdentifier, Bool.and_eq_true]

theorem exists_cons_of_isTypeIdentifier (h : isTypeIdentifier id = true) :
    ∃ c t, id = c :: t ∧ isIdentifierStart c = true ∧ t.all isIdentifierChar = true := by
  cases id with
  | nil => cases h
  | cons c t => exact ⟨c, t, rfl, isTypeIdentifier_cons.mp h⟩

theorem isIdentifierChar_of_mem (h : isTypeIdentifier id = true) (hc : c ∈ id) :
    isIdentifierChar c = true := by
  obtain ⟨d, t, rfl, hd, ht⟩ := exists_cons_of_isTypeIdentifier h
  rcases List.mem_cons.mp hc with rfl | hc
  · exact isIdentifierChar_of_isIdentifierStart hd
  · exact List.all_eq_true.mp ht c hc

/-! ## The name of a clause -/

/-- An identifier is read up to the first character that cannot be part of it. -/
theorem identifier?_append (h : isTypeIdentifier id = true)
    (hrest : ∀ c ∈ rest.head?, isIdentifierChar c = false) :
    identifier? (id ++ rest) = some (id, rest) := by
  obtain ⟨c, t, rfl, hc, ht⟩ := exists_cons_of_isTypeIdentifier h
  rw [List.cons_append, identifier?, if_pos hc, Text.takeWhile_run ht hrest,
    Text.dropWhile_run ht hrest]

theorem trimStart_append (h : isTypeIdentifier id = true) (rest : Text) :
    Text.trimStart (id ++ rest) = id ++ rest := by
  obtain ⟨c, t, rfl, hc, -⟩ := exists_cons_of_isTypeIdentifier h
  have hblank := isBlank_of_isIdentifierChar (isIdentifierChar_of_isIdentifierStart hc)
  exact Text.trimStart_cons hblank _

/-- Type arguments start neither with a character of an identifier nor with a dot. -/
theorem Arguments.head? (h : Arguments rest) :
    ∀ c ∈ rest.head?, isIdentifierChar c = false := by
  cases h with
  | absent => exact fun _ hc => absurd hc (Option.not_mem_none _)
  | @bracketed gap inner hgap =>
    cases gap with
    | nil =>
      intro c hc
      obtain rfl := Option.some.inj hc
      rfl
    | cons b gap =>
      intro c hc
      obtain rfl := Option.some.inj hc
      exact isIdentifierChar_of_isBlank (List.all_eq_true.mp hgap b (List.mem_cons_self ..))

theorem Arguments.trimStart (h : Arguments rest) : Text.trimStart rest = [] ∨
    ∃ inner, Text.trimStart rest = '<' :: inner ∧ inner.getLast? = some '>' := by
  cases h with
  | absent => exact .inl rfl
  | @bracketed gap inner hgap =>
    refine .inr ⟨inner ++ ['>'], ?_, List.getLast?_concat⟩
    rw [List.append_assoc, List.cons_append]
    exact Text.dropWhile_run hgap fun c hc => by
      obtain rfl := Option.some.inj hc
      rfl

theorem Arguments.afterDot? (h : Arguments rest) : Scope.afterDot? rest = none := by
  unfold Scope.afterDot?
  rcases h.trimStart with hnil | ⟨inner, hinner, -⟩
  · rw [hnil]
  · rw [hinner]
    rfl

/-- The first identifier is followed by the others, each after a dot. -/
theorem join_cons_eq_flatMap (id : Text) (ids : List Text) :
    Text.join "." (id :: ids) = id ++ ids.flatMap ('.' :: ·) := by
  induction ids generalizing id with
  | nil => rw [Text.join_singleton, List.flatMap_nil, List.append_nil]
  | cons next ids ih =>
    rw [Text.join_cons _ _ (List.cons_ne_nil next ids), ih, List.flatMap_cons, List.append_assoc]
    rfl

/-- An identifier behind a dot, with blanks around the dot. -/
structure Joint where
  before : Text
  after : Text
  name : Text
  isBlank_before : before.all Text.isBlank = true
  isBlank_after : after.all Text.isBlank = true
  isTypeIdentifier_name : isTypeIdentifier name = true

namespace Joint

/-- What a joint adds to a clause. -/
def text (j : Joint) : Text := j.before ++ '.' :: (j.after ++ j.name)

/-- A joint starts with a blank or with its dot. -/
theorem head?_text_append (j : Joint) (rest : Text) :
    ∀ c ∈ (j.text ++ rest).head?, isIdentifierChar c = false := by
  intro c hc
  cases hbefore : j.before with
  | nil =>
    rw [text, hbefore] at hc
    obtain rfl := Option.some.inj hc
    rfl
  | cons b more =>
    rw [text, hbefore] at hc
    obtain rfl := Option.some.inj hc
    have hblank := List.all_eq_true.mp j.isBlank_before
    rw [hbefore] at hblank
    exact isIdentifierChar_of_isBlank (hblank b (List.mem_cons_self ..))

theorem afterDot?_text_append (j : Joint) (rest : Text) :
    afterDot? (j.text ++ rest) = some (j.name ++ rest) := by
  have hdot : Text.trimStart (j.text ++ rest) = '.' :: (j.after ++ j.name ++ rest) := by
    rw [text, List.append_assoc, List.cons_append]
    exact Text.dropWhile_run j.isBlank_before fun c hc => by
      obtain rfl := Option.some.inj hc
      rfl
  have hname : Text.trimStart (j.after ++ j.name ++ rest) = j.name ++ rest := by
    rw [List.append_assoc, Text.trimStart,
      List.dropWhile_append_of_pos (List.all_eq_true.mp j.isBlank_after)]
    exact trimStart_append j.isTypeIdentifier_name rest
  rw [afterDot?, hdot]
  exact congrArg some hname

end Joint

/-- Behind a name no identifier goes on, neither with the next joint nor with type arguments. -/
theorem head?_joints_append (h : Arguments rest) (joints : List Joint) :
    ∀ c ∈ (joints.flatMap Joint.text ++ rest).head?, isIdentifierChar c = false := by
  cases joints with
  | nil => exact h.head?
  | cons j joints =>
    rw [List.flatMap_cons, List.append_assoc]
    exact j.head?_text_append _

/-- The joints behind an identifier are read up to the type arguments. -/
theorem moreIdentifiers_joints (joints : List Joint) (hrest : Arguments rest) :
    moreIdentifiers (joints.flatMap Joint.text ++ rest) = (joints.map Joint.name, rest) := by
  induction joints with
  | nil =>
    rw [List.flatMap_nil, List.nil_append, moreIdentifiers]
    split
    · rename_i found hfound
      rw [hrest.afterDot?] at hfound
      cases hfound
    · rfl
  | cons j joints ih =>
    have hnext : (afterDot? ((j :: joints).flatMap Joint.text ++ rest)).bind identifier? =
        some (j.name, joints.flatMap Joint.text ++ rest) := by
      rw [List.flatMap_cons, List.append_assoc, j.afterDot?_text_append, Option.bind_some,
        identifier?_append j.isTypeIdentifier_name (head?_joints_append hrest joints)]
    rw [moreIdentifiers]
    split
    · rename_i found hfound
      obtain rfl := Option.some.inj (hnext.symm.trans hfound)
      dsimp only
      rw [ih, List.map_cons]
    · rename_i hnone
      rw [hnext] at hnone
      cases hnone

/-- Of a clause its names are read, joined by dots alone, whatever type arguments follow. -/
theorem baseName?_joints (hid : isTypeIdentifier id = true) (joints : List Joint)
    (hrest : Arguments rest) : baseName? (id ++ joints.flatMap Joint.text ++ rest) =
      some (Text.join "." (id :: joints.map Joint.name)) := by
  unfold baseName?
  rw [List.append_assoc, identifier?_append hid (head?_joints_append hrest joints),
    Option.bind_eq_bind, Option.bind_some]
  dsimp only
  rw [moreIdentifiers_joints joints hrest]
  rcases hrest.trimStart with hnil | ⟨inner, hinner, hlast⟩
  · rw [hnil]
  · rw [hinner]
    simp [hlast]

/-- A clause without type arguments ends as an identifier does. -/
theorem isIdentifierChar_of_mem_getLast? (hid : isTypeIdentifier id = true) (joints : List Joint) :
    ∀ c ∈ (id ++ joints.flatMap Joint.text).getLast?, isIdentifierChar c = true := by
  induction joints generalizing id with
  | nil =>
    rw [List.flatMap_nil, List.append_nil]
    exact fun c hc => isIdentifierChar_of_mem hid (List.mem_of_mem_getLast? hc)
  | cons j joints ih =>
    have hsplit : id ++ (j :: joints).flatMap Joint.text =
        (id ++ (j.before ++ '.' :: j.after)) ++ (j.name ++ joints.flatMap Joint.text) := by
      simp [Joint.text]
    obtain ⟨c, t, hname, -, -⟩ := exists_cons_of_isTypeIdentifier j.isTypeIdentifier_name
    have hne : j.name ++ joints.flatMap Joint.text ≠ [] := by simp [hname]
    rw [hsplit, List.getLast?_append_of_ne_nil _ hne]
    exact ih j.isTypeIdentifier_name

/-- There are no blanks at the ends of such a clause. -/
theorem trim_joints (hid : isTypeIdentifier id = true) (joints : List Joint)
    (hrest : Arguments rest) : Text.trim (id ++ joints.flatMap Joint.text ++ rest) =
      id ++ joints.flatMap Joint.text ++ rest := by
  rw [Text.trim_eq_self_iff]
  constructor
  · rw [List.append_assoc]
    exact trimStart_append hid _
  · rw [Text.trimEnd_eq_self_iff]
    cases hrest with
    | absent =>
      rw [List.append_nil]
      intro c hc
      exact isBlank_of_isIdentifierChar (isIdentifierChar_of_mem_getLast? hid joints c hc)
    | bracketed inner _ =>
      rw [← List.append_assoc, List.getLast?_concat]
      intro c hc
      obtain rfl := Option.some.inj hc
      rfl

/-- Identifiers that are joined by dots alone are joints without blanks. -/
theorem exists_joints (h : ∀ id ∈ ids, isTypeIdentifier id = true) :
    ∃ joints : List Joint, joints.map Joint.name = ids ∧
      joints.flatMap Joint.text = ids.flatMap ('.' :: ·) := by
  induction ids with
  | nil => exact ⟨[], rfl, rfl⟩
  | cons id ids ih =>
    obtain ⟨hid, hids⟩ := List.forall_mem_cons.mp h
    obtain ⟨joints, hnames, htext⟩ := ih hids
    refine ⟨⟨[], [], id, rfl, rfl, hid⟩ :: joints, ?_, ?_⟩
    · rw [List.map_cons, hnames]
    · rw [List.flatMap_cons, List.flatMap_cons, htext]
      rfl

/-- Identifiers joined by dots alone are a clause. -/
theorem exists_joints_join (h : ∀ id ∈ ids, isTypeIdentifier id = true) (hne : ids ≠ []) :
    ∃ (id : Text) (joints : List Joint), isTypeIdentifier id = true ∧
      ids = id :: joints.map Joint.name ∧
      Text.join "." ids = id ++ joints.flatMap Joint.text := by
  obtain ⟨id, ids, rfl⟩ := List.exists_cons_of_ne_nil hne
  obtain ⟨hid, hids⟩ := List.forall_mem_cons.mp h
  obtain ⟨joints, rfl, htext⟩ := exists_joints hids
  exact ⟨id, joints, hid, rfl, by rw [join_cons_eq_flatMap, htext]⟩

/-- A clause that joins identifiers is read as just that, whatever type arguments follow. -/
theorem baseName?_join (h : ∀ id ∈ ids, isTypeIdentifier id = true) (hne : ids ≠ [])
    (hrest : Arguments rest) :
    baseName? (Text.join "." ids ++ rest) = some (Text.join "." ids) := by
  obtain ⟨id, joints, hid, hids, htext⟩ := exists_joints_join h hne
  rw [htext, baseName?_joints hid joints hrest, ← hids, htext]

theorem trim_join (h : ∀ id ∈ ids, isTypeIdentifier id = true) (hne : ids ≠ [])
    (hrest : Arguments rest) :
    Text.trim (Text.join "." ids ++ rest) = Text.join "." ids ++ rest := by
  obtain ⟨id, joints, hid, -, htext⟩ := exists_joints_join h hne
  rw [htext, trim_joints hid joints hrest]

/-! ## What the name stands for -/

/-- In a package a name alone is among its candidates. -/
theorem mem_candidates_self (hroot : root.kind = .package) :
    name ∈ candidates root origin name := by
  refine mem_candidates.mpr ⟨[], ?_, ?_⟩
  · exact List.mem_map.mpr ⟨0, List.mem_range.mpr (Nat.succ_pos _), List.take_zero⟩
  · have hscope : root.scopedName [] = [] := by
      simp [scopedName, scopedNameOf, lineage, hroot, Kind.isRoot]
    rw [hscope]
    rfl

/-- A name that no nearer scope declares stands for the type that has it as its full name, if it
starts with a character of a word. -/
theorem resolve_of_first (hroot : root.kind = .package)
    (hfirst : ∀ nearer ∈ (candidates root origin name).takeWhile (· != name),
      types.lookup nearer = none)
    (hname : types.lookup name = some a) :
    resolve root types origin name =
      if name.head?.any Text.isWord then some a else none := by
  have hdrop : (candidates root origin name).dropWhile (· != name) ≠ [] := by
    rw [ne_eq, List.dropWhile_eq_nil_iff]
    intro hall
    simpa using hall name (mem_candidates_self hroot)
  obtain ⟨found, later, hlater⟩ := List.exists_cons_of_ne_nil hdrop
  have hfound : found = name := by
    have hhead := List.head?_dropWhile_not (· != name) (candidates root origin name)
    rw [hlater] at hhead
    simpa using hhead
  unfold resolve
  split
  · rw [← List.takeWhile_append_dropWhile (p := (· != name)) (l := candidates root origin name),
      List.findSome?_append, List.findSome?_eq_none_iff.mpr hfirst, hlater, hfound,
      List.findSome?_cons, hname]
    rfl
  · rfl

/-- What a clause names that is read as a name. -/
theorem value_baseType {clause : Text} (hname : baseName? (Text.trim clause) = some name) :
    (baseType root types origin clause).value =
      some (match resolve root types origin name with
        | some a => .declaration a
        | none => .label name) := by
  have hne : (Text.trim clause).isEmpty = false := by
    by_contra hnil
    rw [Bool.not_eq_false, List.isEmpty_iff] at hnil
    rw [hnil] at hname
    cases hname
  unfold baseType
  dsimp only
  rw [if_neg (by simp [hne]), hname]
  dsimp only
  cases resolve root types origin name <;> rfl

/-- A clause with the full name of a type that no nearer scope declares names the type, whatever
type arguments follow; but if the full name starts with a dollar sign, the clause is a label. -/
theorem value_baseType_join (hroot : root.kind = .package)
    (hids : ∀ id ∈ ids, isTypeIdentifier id = true) (hne : ids ≠ [])
    (hfirst : ∀ nearer ∈ (candidates root origin (Text.join "." ids)).takeWhile
      (· != Text.join "." ids), types.lookup nearer = none)
    (hname : types.lookup (Text.join "." ids) = some a) (hrest : Arguments rest) :
    (baseType root types origin (Text.join "." ids ++ rest)).value =
      some (if (Text.join "." ids).head? = some '$' then .label (Text.join "." ids)
        else .declaration a) := by
  have hword : (Text.join "." ids).head?.any Text.isWord = true ↔
      (Text.join "." ids).head? ≠ some '$' := by
    obtain ⟨first, ids, rfl⟩ := List.exists_cons_of_ne_nil hne
    obtain ⟨c, t, hfirst, hc, -⟩ :=
      exists_cons_of_isTypeIdentifier (hids first (List.mem_cons_self ..))
    rw [join_cons_eq_flatMap, hfirst, List.cons_append, List.head?_cons, Option.any_some,
      isWord_of_isIdentifierStart hc, ne_eq, ne_eq, Option.some.injEq]
  have hread := baseName?_join hids hne hrest
  rw [← trim_join hids hne hrest] at hread
  rw [value_baseType hread, resolve_of_first hroot hfirst hname]
  by_cases hdollar : (Text.join "." ids).head? = some '$'
  · rw [if_pos hdollar, if_neg (fun h => hword.mp h hdollar)]
  · rw [if_neg hdollar, if_pos (hword.mpr hdollar)]

end ApiReference.Scope
