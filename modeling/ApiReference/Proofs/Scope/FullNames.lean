import ApiReference.Proofs.Scope.Named
import ApiReference.Proofs.Scope.Segments

/-!
# Full names as references

A reference goes to the type that the longest prefix of its names stands for, or else
to the package, and down from there without coming back.  So the full name of a
declaration leads to it, or to another declaration of the same name, as long as its
container is itself what the full name of the container stands for (`Found`).  A class
and a namespace of one name fail this: the name stands for the class, and what is in the
namespace is not looked for there.
-/

namespace ApiReference.Scope

open Declaration

variable {root d m : Declaration} {a b c : Address} {names rest : List Text} {n : Nat}

theorem Kind.isRoot_of_isType {k : Kind} (h : k.isType = true) : k.isRoot = false := by
  cases k <;> first | rfl | cases h

/-! ## Names on the way to a declaration -/

/-- A package in which all declarations, save those that add nothing to names, are named by
identifiers. -/
def NamedByIdentifiers (root : Declaration) : Prop :=
  ∀ a ∈ root.walk, (root.kind? a).all Kind.isRoot = true ∨ isIdentifier (root.nameAt a) = true

instance NamedByIdentifiers.decidable (root : Declaration) : Decidable (NamedByIdentifiers root) :=
  inferInstanceAs (Decidable (∀ a ∈ root.walk, _ ∨ _))

theorem exists_info?_of_mem_lineage {i : Info} (hi : i ∈ root.lineage a) :
    ∃ b, root.info? b = some i := by
  induction a generalizing root with
  | nil => exact ⟨[], by simpa [lineage, info?, get?, eq_comm] using hi⟩
  | cons k a ih =>
    rw [lineage, List.mem_cons] at hi
    rcases hi with rfl | hi
    · exact ⟨[], rfl⟩
    · split at hi
      · rename_i inner hinner
        obtain ⟨b, hb⟩ := ih hi
        exact ⟨k :: b, by simpa [info?, get?, hinner] using hb⟩
      · exact absurd hi List.not_mem_nil

theorem toInfo_mem_lineage (hd : root.get? a = some d) : d.toInfo ∈ root.lineage a := by
  induction a generalizing root with
  | nil =>
    obtain rfl := Option.some.inj hd
    exact List.mem_singleton_self _
  | cons k a ih =>
    obtain ⟨i, ms⟩ := root
    rw [get?_cons] at hd
    obtain ⟨inner, hinner, hd⟩ := Option.bind_eq_some_iff.mp hd
    rw [lineage, hinner]
    exact List.mem_cons_of_mem _ (ih hd)

theorem isIdentifier_of_mem_scopedNames (h : NamedByIdentifiers root) {name : Text}
    (hname : name ∈ root.scopedNames a) : isIdentifier name = true := by
  obtain ⟨i, hi, rfl⟩ := List.mem_map.mp hname
  obtain ⟨hi, hkind⟩ := List.mem_filter.mp hi
  obtain ⟨b, hb⟩ := exists_info?_of_mem_lineage hi
  obtain ⟨e, he, rfl⟩ := Option.map_eq_some_iff.mp hb
  rcases h b (mem_walk_of_info? hb) with hroot | hident
  · rw [kind?_of_get? he, Option.all_some] at hroot
    simp [hroot] at hkind
  · rwa [nameAt_of_get? he] at hident

theorem scopedNames_ne_nil (hd : root.get? a = some d) (hkind : d.kind.isRoot = false) :
    root.scopedNames a ≠ [] := by
  have hmem : d.toInfo ∈ (root.lineage a).filter fun i => !i.kind.isRoot :=
    List.mem_filter.mpr ⟨toInfo_mem_lineage hd, by simp [hkind]⟩
  exact List.ne_nil_of_mem (List.mem_map_of_mem hmem)

/-- Where names are identifiers, equal full names are made of the same names. -/
theorem scopedNames_eq (h : NamedByIdentifiers root) (hident : ∀ n ∈ names, isIdentifier n = true)
    (hne : names ≠ []) (heq : root.scopedName a = Text.join "." names) :
    root.scopedNames a = names := by
  refine join_injective
    (fun _ hn => isWordName_of_isIdentifier (isIdentifier_of_mem_scopedNames h hn))
    (fun n hn => isWordName_of_isIdentifier (hident n hn)) ?_ hne heq
  intro hnil
  have hjoin := join_ne_nil hne fun n hn => ne_nil_of_isIdentifier (hident n hn)
  rw [← heq, scopedName_eq_join, hnil] at hjoin
  exact hjoin rfl

/-! ## Where names lead -/

/-- Where names lead from the root: down from the type that most of them stand for, or from the root
itself if there is no such type. -/
def lead (root : Declaration) (names : List Text) : Except Text Address :=
  match longestType? (fun name => (TypeMap.of root).value.lookup name) names names.length with
  | some (a, rest) => descend root a rest
  | none => descend root [] names

/-- At the root there is one candidate for a name, the name. -/
theorem lookupFrom_root (h : PackageTree root) {name : Text}
    (hname : name.head?.any Text.isWord = true) (types : TypeMap) :
    lookupFrom root types (some []) name = types.lookup name := by
  have hroot : root.scopedName [] = [] := by
    rw [scopedName_eq_join, scopedNames_root h, Text.join_nil]
  have hcandidates : candidates root [] name = [name] := by
    simp [candidates, hierarchy, addNew, qualify, hroot]
  rw [lookupFrom, resolve, if_pos hname, hcandidates, List.findSome?_singleton]

/-- A reference that joins identifiers by dots leads where the names do. -/
theorem reference_join (h : PackageTree root) (hident : ∀ n ∈ names, isIdentifier n = true)
    (hne : names ≠ []) : reference root (TypeMap.of root).value (some []) (Text.join "." names) =
      .ok b ↔ lead root names = .ok b := by
  obtain ⟨first, rest, rfl⟩ := List.exists_cons_of_ne_nil hne
  have hhead (k : Nat) :
      (Text.join "." ((first :: rest).take (k + 1))).head?.any Text.isWord = true := by
    have hfirst := head?_of_isIdentifier (hident first (List.mem_cons_self ..))
    obtain ⟨c, first, rfl⟩ := List.exists_cons_of_ne_nil
      (ne_nil_of_isIdentifier (hident first (List.mem_cons_self ..)))
    rw [List.take_succ_cons]
    by_cases hnil : rest.take k = []
    · rwa [hnil, Text.join_singleton]
    · rwa [Text.join_cons _ _ hnil]
  have hpackage : root.packageOf? [] = some [] := by
    simp [packageOf?, hierarchy, kind?, get?, h.kind_eq]
  unfold reference
  dsimp only
  rw [segments_join _ (fun n hn => isWordName_of_isIdentifier (hident n hn)),
    Option.bind_some, hpackage]
  dsimp only
  rw [longestType?_congr (g := fun name => (TypeMap.of root).value.lookup name)
    fun k => lookupFrom_root h (hhead k) _, lead]
  cases longestType? (fun name => (TypeMap.of root).value.lookup name) (first :: rest)
      (first :: rest).length with
  | some found => exact Iff.rfl
  | none =>
    rw [Option.bind_some, descend]
    cases findExport? root [] first with
    | some c => exact Iff.rfl
    | none =>
      constructor
      · intro hfound
        cases hfound
      · intro hfound
        cases hfound

/-! ## Full names -/

/-- What a full name stands for: the last type that has it, or else the first declaration of its
name in a container that is itself what the full name of the container stands for. -/
inductive Found (root : Declaration) : Address → Prop
  | package : Found root []
  | type {a : Address} (h : (typesNamed root (root.scopedName a)).getLast? = some a) : Found root a
  | member {a b : Address} (ha : Found root a)
      (hb : findExport? root a (root.nameAt b) = some b)
      (hnone : typesNamed root (root.scopedName b) = []) : Found root b

/-- The full name of a declaration, continued by some of the given names, is not that of a type. -/
def NoTypeBelow (root : Declaration) (a : Address) (rest : List Text) : Prop :=
  ∀ n, 0 < n → n ≤ rest.length →
    typesNamed root (Text.join "." (root.scopedNames a ++ rest.take n)) = []

theorem lookup_of_typesNamed {name : Text} (h : typesNamed root name = []) :
    (TypeMap.of root).value.lookup name = none := by
  rw [TypeMap.lookup_of, h]
  rfl

theorem typesNamed_of_lookup {name : Text} (h : (TypeMap.of root).value.lookup name = none) :
    typesNamed root name = [] := by
  rwa [TypeMap.lookup_of, List.getLast?_eq_none_iff] at h

/-- One step down keeps to names that make no type. -/
theorem NoTypeBelow.step (h : PackageTree root) {name : Text}
    (hb : findExport? root a name = some b) (hfree : NoTypeBelow root a (name :: rest)) :
    typesNamed root (root.scopedName b) = [] ∧ NoTypeBelow root b rest := by
  obtain ⟨hmem, rfl⟩ := findExport?_eq_some hb
  have hnames := h.scopedNames_of_mem_exportsAt hmem
  constructor
  · have hone := hfree 1 Nat.one_pos (by simp)
    rwa [List.take_succ_cons, List.take_zero, ← hnames] at hone
  · intro n hn hle
    have hnext := hfree (n + 1) (Nat.succ_pos n) (Nat.succ_le_succ hle)
    rwa [List.take_succ_cons, ← List.singleton_append, ← List.append_assoc, ← hnames] at hnext

theorem NoTypeBelow.cons (h : PackageTree root) (hb : b ∈ root.exportsAt a)
    (hnone : typesNamed root (root.scopedName b) = []) (hfree : NoTypeBelow root b rest) :
    NoTypeBelow root a (root.nameAt b :: rest) := by
  have hnames := h.scopedNames_of_mem_exportsAt hb
  intro n hn hle
  obtain ⟨k, rfl⟩ := Nat.exists_eq_succ_of_ne_zero hn.ne'
  rw [List.take_succ_cons, ← List.singleton_append, ← List.append_assoc, ← hnames]
  cases k with
  | zero => rwa [List.take_zero, List.append_nil]
  | succ k => exact hfree (k + 1) (Nat.succ_pos k) (Nat.le_of_succ_le_succ hle)

theorem found_of_descend (h : PackageTree root) (ha : Found root a)
    (hfree : NoTypeBelow root a rest) (hb : descend root a rest = .ok b) : Found root b := by
  induction rest generalizing a with
  | nil =>
    obtain rfl := Except.ok.inj hb
    exact ha
  | cons name rest ih =>
    unfold descend at hb
    split at hb
    · rename_i c hc
      obtain ⟨hnone, hbelow⟩ := hfree.step h hc
      obtain ⟨_, rfl⟩ := findExport?_eq_some hc
      exact ih (.member ha hc hnone) hbelow hb
    · cases hb

/-- Names that go on from the full name of what is found lead down from there. -/
theorem lead_append (h : PackageTree root) (ha : Found root a)
    (hfree : NoTypeBelow root a rest) :
    lead root (root.scopedNames a ++ rest) = descend root a rest := by
  induction ha generalizing rest with
  | package =>
    rw [scopedNames_root h, List.nil_append, lead, longestType?_skip (Nat.zero_le _)]
    · rfl
    · intro m hm hle
      have hnone := hfree m hm hle
      rw [scopedNames_root h, List.nil_append] at hnone
      exact lookup_of_typesNamed hnone
  | @type a hlast =>
    have hsome : root.scopedNames a ≠ [] := by
      obtain ⟨k, hkind, htype⟩ := (Option.any_eq_true _ _).mp
        (isTypeNamed_iff.mp (List.mem_filter.mp (List.mem_of_getLast? hlast)).2).1
      obtain ⟨d, hd, rfl⟩ := Option.map_eq_some_iff.mp hkind
      exact scopedNames_ne_nil hd (Kind.isRoot_of_isType htype)
    have hlookup :
        (TypeMap.of root).value.lookup (Text.join "." (root.scopedNames a)) = some a := by
      rw [TypeMap.lookup_of]
      exact hlast
    obtain ⟨k, hk⟩ := Nat.exists_eq_add_one_of_ne_zero (List.length_pos_of_ne_nil hsome).ne'
    rw [lead, longestType?_skip (n := (root.scopedNames a).length) (by simp)]
    · rw [hk, longestType?, ← hk, List.take_left, List.drop_left, hlookup]
    · intro m hm hle
      have hnone := hfree (m - (root.scopedNames a).length) (by omega)
        (by rw [List.length_append] at hle; omega)
      rw [List.take_append, List.take_of_length_le hm.le]
      exact lookup_of_typesNamed hnone
  | @member c b hc hb hnone ih =>
    obtain ⟨hmem, _⟩ := findExport?_eq_some hb
    have hlead := ih (NoTypeBelow.cons h hmem hnone hfree)
    rw [h.scopedNames_of_mem_exportsAt hmem, List.append_assoc, List.singleton_append, hlead,
      descend, hb]

/-- Names lead to what is found by them, and to nothing else. -/
theorem lead_eq_ok_iff (h : PackageTree root) (hnamed : NamedByIdentifiers root)
    (hident : ∀ n ∈ names, isIdentifier n = true) :
    lead root names = .ok b ↔ Found root b ∧ root.scopedNames b = names := by
  constructor
  · intro hlead
    unfold lead at hlead
    split at hlead
    · rename_i t rest hfound
      obtain ⟨n, hn, hle, hlookup, rfl, hlonger⟩ := longestType?_eq_some hfound
      have htake : names.take n ≠ [] := List.ne_nil_of_length_pos (by rw [List.length_take]; omega)
      have hfull := (TypeMap.scopedName_of_lookup hlookup).2
      have hnames := scopedNames_eq hnamed (fun m hm => hident m (List.mem_of_mem_take hm)) htake
        hfull
      have ht : Found root t := by
        refine .type ?_
        rwa [hfull, ← TypeMap.lookup_of]
      have hfree : NoTypeBelow root t (names.drop n) := by
        intro k hk hmax
        rw [List.length_drop] at hmax
        rw [hnames, ← List.take_add]
        exact typesNamed_of_lookup (hlonger (n + k) (by omega) (by omega))
      exact ⟨found_of_descend h ht hfree hlead, by
        rw [scopedNames_of_descend h hlead, hnames, List.take_append_drop]⟩
    · rename_i hnone
      have hfree : NoTypeBelow root [] names := by
        intro k hk hmax
        rw [scopedNames_root h, List.nil_append]
        exact typesNamed_of_lookup (longestType?_eq_none hnone k hk hmax)
      exact ⟨found_of_descend h .package hfree hlead, by
        rw [scopedNames_of_descend h hlead, scopedNames_root h, List.nil_append]⟩
  · rintro ⟨hb, rfl⟩
    have hfree : NoTypeBelow root b [] := fun n hn hle => absurd hle (by simpa using hn.ne')
    have hlead := lead_append h hb hfree
    rwa [List.append_nil] at hlead

/-- A full name leads to what is found under it, whichever declaration it was taken from. -/
theorem reference_scopedName (h : PackageTree root) (hnamed : NamedByIdentifiers root)
    (ha : root.scopedNames a ≠ []) :
    reference root (TypeMap.of root).value (some []) (root.scopedName a) = .ok b ↔
      Found root b ∧ root.scopedName b = root.scopedName a := by
  have hident : ∀ n ∈ root.scopedNames a, isIdentifier n = true :=
    fun _ => isIdentifier_of_mem_scopedNames hnamed
  rw [scopedName_eq_join root a, reference_join h hident ha, lead_eq_ok_iff h hnamed hident]
  refine and_congr_right fun _ => ⟨fun hnames => ?_, scopedNames_eq hnamed hident ha⟩
  rw [scopedName_eq_join, hnames]

/-- The full name of an export of a found declaration stands for something: for the last type that
has it, or else for the first export of this name. -/
theorem exists_found_of_mem_exportsAt (h : PackageTree root) (hc : Found root c)
    (hb : b ∈ root.exportsAt c) :
    ∃ b', Found root b' ∧ root.scopedName b' = root.scopedName b := by
  cases htypes : (typesNamed root (root.scopedName b)).getLast? with
  | some t =>
    have ht := (isTypeNamed_iff.mp (List.mem_filter.mp (List.mem_of_getLast? htypes)).2).2
    exact ⟨t, .type (by rwa [ht]), ht⟩
  | none =>
    obtain ⟨b', hb'⟩ : ∃ b', findExport? root c (root.nameAt b) = some b' :=
      Option.isSome_iff_exists.mp (List.find?_isSome.mpr ⟨b, hb, beq_self_eq_true _⟩)
    obtain ⟨hmem, hname⟩ := findExport?_eq_some hb'
    have hfull : root.scopedName b' = root.scopedName b := by
      rw [scopedName_eq_join, scopedName_eq_join, h.scopedNames_of_mem_exportsAt hmem,
        h.scopedNames_of_mem_exportsAt hb, hname]
    refine ⟨b', .member hc (by rwa [hname]) ?_, hfull⟩
    rw [hfull]
    exact List.getLast?_eq_none_iff.mp htypes

/-- In a package whose declarations are named by identifiers, the full name of a declaration leads
to a declaration with that full name exactly when it is the full name of a type, or of an export
of something that is itself what its full name stands for. -/
theorem fullName_leads_iff (h : PackageTree root) (hnamed : NamedByIdentifiers root)
    (hd : root.get? a = some d) (hkind : d.kind.isRoot = false) :
    (∃ b, reference root (TypeMap.of root).value (some []) (root.scopedName a) = .ok b ∧
        root.scopedName b = root.scopedName a) ↔
      typesNamed root (root.scopedName a) ≠ [] ∨
        ∃ c, Found root c ∧ ∃ b ∈ root.exportsAt c, root.scopedName b = root.scopedName a := by
  have hsome := scopedNames_ne_nil hd hkind
  constructor
  · rintro ⟨b, hb, hfull⟩
    obtain ⟨hfound, _⟩ := (reference_scopedName h hnamed hsome).mp hb
    cases hfound with
    | package =>
      have hnames := scopedNames_eq hnamed (fun _ => isIdentifier_of_mem_scopedNames hnamed) hsome
        hfull
      exact absurd (hnames.symm.trans (scopedNames_root h)) hsome
    | type hlast => exact .inl (hfull ▸ List.ne_nil_of_mem (List.mem_of_getLast? hlast))
    | member hc hexport _ => exact .inr ⟨_, hc, b, (findExport?_eq_some hexport).1, hfull⟩
  · intro hcases
    obtain ⟨b, hfound, hfull⟩ :
        ∃ b, Found root b ∧ root.scopedName b = root.scopedName a := by
      rcases hcases with htypes | ⟨c, hc, b, hb, hfull⟩
      · have hlast := List.getLast?_eq_some_getLast htypes
        have ht := (isTypeNamed_iff.mp (List.mem_filter.mp (List.mem_of_getLast? hlast)).2).2
        exact ⟨_, .type (by rwa [ht]), ht⟩
      · obtain ⟨b', hb', hfull'⟩ := exists_found_of_mem_exportsAt h hc hb
        exact ⟨b', hb', hfull'.trans hfull⟩
    exact ⟨b, (reference_scopedName h hnamed hsome).mpr ⟨hfound, hfull⟩, hfull⟩

/-! ### Containers that share their full name with nothing -/

/-- No other declaration has the full name of this one. -/
def Alone (root : Declaration) (a : Address) : Prop :=
  ∀ b ∈ root.walk, root.scopedName b = root.scopedName a → b = a

theorem Found.mem_walk (ha : Found root a) : a ∈ root.walk := by
  cases ha with
  | package => exact Declaration.mem_walk.mpr rfl
  | type hlast =>
    have htype := (List.mem_filter.mp (List.mem_of_getLast? hlast)).2
    obtain ⟨k, hk, _⟩ := (Option.any_eq_true _ _).mp (isTypeNamed_iff.mp htype).1
    exact mem_walk_of_kind? hk
  | member _ hb _ => exact mem_walk_of_findExport? hb

theorem found_of_alone (h : PackageTree root) (halone : Alone root b) (ha : Found root a)
    (hb : b ∈ root.exportsAt a) : Found root b := by
  obtain ⟨b', hb', hfull⟩ := exists_found_of_mem_exportsAt h ha hb
  exact halone b' hb'.mem_walk hfull ▸ hb'

/-- The package, and what can be reached from it by taking exports. -/
inductive Exported (root : Declaration) : Address → Prop
  | package : Exported root []
  | member {a b : Address} (ha : Exported root a) (hb : b ∈ root.exportsAt a) : Exported root b

/-- Every container of an exported declaration that is exported too shares its full name with
nothing. -/
def AloneAround (root : Declaration) (a : Address) : Prop :=
  ∀ c, Exported root c → c <+: a → c ≠ a → c ≠ [] → Alone root c

theorem exists_found_container (h : PackageTree root) (ha : Exported root a)
    (halone : AloneAround root a) : a = [] ∨ ∃ c, Found root c ∧ a ∈ root.exportsAt c := by
  induction ha with
  | package => exact .inl rfl
  | @member a b ha hb ih =>
    obtain ⟨hbelow, hne⟩ := prefix_of_mem_exportsAt hb
    have hinner : AloneAround root a := by
      intro c hc hca hcne
      refine halone c hc (hca.trans hbelow) ?_
      rintro rfl
      exact hne (hbelow.eq_of_length_le hca.length_le)
    refine .inr ⟨a, ?_, hb⟩
    by_cases hnil : a = []
    · exact hnil ▸ .package
    · obtain ⟨c, hc, hexport⟩ := (ih hinner).resolve_left hnil
      exact found_of_alone h (halone a ha hbelow hne hnil) hc hexport

/-- In a package whose declarations are named by identifiers, every exported declaration is linked
by its full name if its containers share their full names with nothing. -/
theorem fullName_leads_of_alone (h : PackageTree root) (hnamed : NamedByIdentifiers root)
    (ha : Exported root a) (hne : a ≠ []) (halone : AloneAround root a) :
    ∃ b, reference root (TypeMap.of root).value (some []) (root.scopedName a) = .ok b ∧
      root.scopedName b = root.scopedName a := by
  obtain ⟨c, hc, hexport⟩ := (exists_found_container h ha halone).resolve_left hne
  obtain ⟨b, hb, hfull⟩ := exists_found_of_mem_exportsAt h hc hexport
  have hsome : root.scopedNames a ≠ [] := by
    rw [h.scopedNames_of_mem_exportsAt hexport]
    simp
  exact ⟨b, (reference_scopedName h hnamed hsome).mpr ⟨hb, hfull⟩, hfull⟩

/-- A class and a namespace of one name, with a class and a function in the namespace. -/
def kennel : Declaration :=
  ⟨.plain .package "kennel", [⟨.plain .entryPoint [], [
    ⟨.plain .classType "Dog", [⟨.plain .method "bark", []⟩]⟩,
    ⟨.plain .nameSpace "Dog", [
      ⟨.plain .function "train", []⟩,
      ⟨.plain .classType "Tail", [⟨.plain .method "wag", []⟩]⟩]⟩]⟩]⟩

/-- The class in the namespace is found, and so is its method. -/
theorem fullName_leads_to_wag :
    PackageTree kennel ∧ NamedByIdentifiers kennel ∧ kennel.kind? [0, 1, 1, 0] = some .method ∧
    kennel.scopedName [0, 1, 1, 0] = "Dog.Tail.wag" ∧
    ∃ b, reference kennel (TypeMap.of kennel).value (some []) (kennel.scopedName [0, 1, 1, 0]) =
        .ok b ∧ kennel.scopedName b = kennel.scopedName [0, 1, 1, 0] := by
  have htree : PackageTree kennel := by decide +kernel
  have hnamed : NamedByIdentifiers kennel := by decide +kernel
  have htail : Found kennel [0, 1, 1] := .type (by decide +kernel)
  refine ⟨htree, hnamed, rfl, by decide +kernel, ?_⟩
  exact (fullName_leads_iff htree hnamed rfl rfl).mpr
    (.inr ⟨[0, 1, 1], htail, [0, 1, 1, 0], by decide +kernel, rfl⟩)

/-- The function in the namespace is an export of the package, and its full name leads nowhere: the
class is looked into for it. -/
theorem fullName_of_train_leads_nowhere :
    PackageTree kennel ∧ NamedByIdentifiers kennel ∧
    kennel.kind? [0] = some .entryPoint ∧ kennel.kind? [0, 1] = some .nameSpace ∧
    kennel.kind? [0, 1, 0] = some .function ∧ kennel.scopedName [0, 1, 0] = "Dog.train" ∧
    reference kennel (TypeMap.of kennel).value (some []) (kennel.scopedName [0, 1, 0]) =
      .error "Dog has no member 'train'" := by
  decide +kernel

end ApiReference.Scope
