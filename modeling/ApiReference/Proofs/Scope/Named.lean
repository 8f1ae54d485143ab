import ApiReference.Proofs.Declaration.Lineage
import ApiReference.Proofs.Scope.TypeMap
import ApiReference.Proofs.Text.Split

/-!
# References lead to what they name

A name is looked up in the scopes around the declaration that uses it, and names after
the first ones go down through members.  On neither way can another name be met: what
is found in the type map has the full name it was looked up by, and every member adds
its own name to that of its container.  So the full name of the target of a reference
is spelled by the reference, alone or within one of these scopes (`MayMean`).
-/

namespace ApiReference.Scope

open Declaration

variable {root : Declaration} {a b origin : Address} {context? : Option Address}
variable {name full : Text} {names rest : List Text}

/-! ## Scopes -/

theorem mem_addNew {c : Text} : c ∈ addNew names name ↔ c ∈ names ∨ c = name := by
  unfold addNew
  split
  · rename_i h
    exact ⟨.inl, fun hc => hc.elim id fun heq => heq ▸ List.contains_iff_mem.mp h⟩
  · rw [List.mem_append, List.mem_singleton]

/-- The candidates for a name are its readings in the scopes around a declaration. -/
theorem mem_candidates {c : Text} : c ∈ candidates root origin name ↔
    ∃ b ∈ hierarchy origin, c = qualify (root.scopedName b) name := by
  have hfold : ∀ (as : List Address) (names : List Text),
      c ∈ as.foldl (fun names a => addNew names (qualify (root.scopedName a) name)) names ↔
        c ∈ names ∨ ∃ b ∈ as, c = qualify (root.scopedName b) name := by
    intro as
    induction as with
    | nil => simp
    | cons a as ih =>
      intro names
      rw [List.foldl_cons, ih, mem_addNew, or_assoc, List.exists_mem_cons_iff]
  rw [candidates, hfold]
  simp

/-- The full names that a name may stand for: the name alone, or within the scope of the declaration
that uses it or of one of its containers. -/
def MayMean (root : Declaration) (context? : Option Address) (name full : Text) : Prop :=
  full = name ∨ ∃ context ∈ context?, ∃ b ∈ hierarchy context,
    full = root.scopedName b ++ '.' :: name

theorem MayMean.append (h : MayMean root context? name full) (t : Text) :
    MayMean root context? (name ++ t) (full ++ t) := by
  obtain rfl | ⟨context, hcontext, b, hb, rfl⟩ := h
  · exact .inl rfl
  · exact .inr ⟨context, hcontext, b, hb, by rw [List.append_assoc, List.cons_append]⟩

theorem mayMean_qualify {context : Address} (hcontext : context ∈ context?)
    (hb : b ∈ hierarchy context) :
    MayMean root context? name (qualify (root.scopedName b) name) := by
  unfold qualify
  split
  · exact .inl rfl
  · exact .inr ⟨context, hcontext, b, hb, rfl⟩

/-- What a name is found to stand for has a full name that it may stand for. -/
theorem mayMean_of_lookupFrom
    (h : lookupFrom root (TypeMap.of root).value context? name = some a) :
    MayMean root context? name (root.scopedName a) := by
  unfold lookupFrom at h
  split at h
  · rename_i context
    unfold resolve at h
    split at h
    · obtain ⟨c, hc, hlookup⟩ := List.exists_of_findSome?_eq_some h
      obtain ⟨b, hb, rfl⟩ := mem_candidates.mp hc
      rw [(TypeMap.scopedName_of_lookup hlookup).2]
      exact mayMean_qualify rfl hb
    · cases h
  · exact .inl (TypeMap.scopedName_of_lookup h).2

/-! ## Prefixes -/

/-- The longest type is found by some of the first names, leaves those after them, and no longer
prefix is a type. -/
theorem longestType?_eq_some {lookup : Text → Option Address} {count : Nat}
    (h : longestType? lookup names count = some (a, rest)) :
    ∃ n, 0 < n ∧ n ≤ count ∧ lookup (Text.join "." (names.take n)) = some a ∧
      rest = names.drop n ∧
      ∀ m, n < m → m ≤ count → lookup (Text.join "." (names.take m)) = none := by
  induction count with
  | zero => cases h
  | succ count ih =>
    unfold longestType? at h
    split at h
    · rename_i b hb
      obtain ⟨rfl, rfl⟩ := Prod.mk.inj (Option.some.inj h)
      exact ⟨count + 1, Nat.succ_pos count, le_refl _, hb, rfl, fun m hm hle => by omega⟩
    · rename_i hnone
      obtain ⟨n, hn, hle, hlookup, hrest, hlonger⟩ := ih h
      refine ⟨n, hn, Nat.le_succ_of_le hle, hlookup, hrest, fun m hm hmax => ?_⟩
      rcases Nat.le_succ_iff.mp hmax with hmax | rfl
      · exact hlonger m hm hmax
      · exact hnone

theorem longestType?_congr {f g : Text → Option Address} {count : Nat}
    (h : ∀ n, f (Text.join "." (names.take (n + 1))) = g (Text.join "." (names.take (n + 1)))) :
    longestType? f names count = longestType? g names count := by
  induction count with
  | zero => rfl
  | succ count ih => rw [longestType?, longestType?, h, ih]

theorem longestType?_eq_none {lookup : Text → Option Address} {count : Nat}
    (h : longestType? lookup names count = none) :
    ∀ n, 0 < n → n ≤ count → lookup (Text.join "." (names.take n)) = none := by
  induction count with
  | zero => exact fun n hn hle => by omega
  | succ count ih =>
    intro n hn hle
    unfold longestType? at h
    split at h
    · cases h
    · rename_i hnone
      rcases Nat.le_succ_iff.mp hle with hle | rfl
      · exact ih h n hn hle
      · exact hnone

/-- Prefixes that are no types are passed over. -/
theorem longestType?_skip {lookup : Text → Option Address} {n count : Nat} (hle : n ≤ count)
    (h : ∀ m, n < m → m ≤ count → lookup (Text.join "." (names.take m)) = none) :
    longestType? lookup names count = longestType? lookup names n := by
  induction count with
  | zero => rw [Nat.le_zero.mp hle]
  | succ count ih =>
    rcases Nat.le_succ_iff.mp hle with hle | rfl
    · rw [longestType?, h (count + 1) (by omega) (le_refl _)]
      exact ih hle fun m hm hmax => h m hm (Nat.le_succ_of_le hmax)
    · rfl

/-! ## Members -/

theorem findExport?_eq_some (h : findExport? root a name = some b) :
    b ∈ root.exportsAt a ∧ root.nameAt b = name :=
  ⟨List.mem_of_find?_eq_some h, by simpa using List.find?_some h⟩

/-- Each step down adds the name it was taken by. -/
theorem scopedNames_of_descend (h : PackageTree root) (hb : descend root a names = .ok b) :
    root.scopedNames b = root.scopedNames a ++ names := by
  induction names generalizing a with
  | nil =>
    obtain rfl := Except.ok.inj hb
    exact (List.append_nil _).symm
  | cons name names ih =>
    unfold descend at hb
    split at hb
    · rename_i c hc
      obtain ⟨hmem, hname⟩ := findExport?_eq_some hc
      rw [ih hb, h.scopedNames_of_mem_exportsAt hmem, hname, List.append_assoc,
        List.singleton_append]
    · cases hb

/-! ## References -/

/-- A package is at the root. -/
theorem packageOf?_eq_some (h : PackageTree root) {context : Address}
    (hb : root.packageOf? context = some b) : b = [] := by
  have hkind : root.kind? b = some .package := by simpa using List.find?_some hb
  by_contra hne
  exact (h.inner b (mem_walk_of_kind? hkind) hne).1 hkind

theorem scopedNames_root (h : PackageTree root) : root.scopedNames [] = [] := by
  simp [scopedNames, lineage, h.kind_eq, Kind.isRoot]

/-- Where the type that is found for the first names has a full name that they may stand for, so has
what is found below it for all of them. -/
theorem mayMean_of_descend (h : PackageTree root) {first : List Text} (hfirst : first ≠ [])
    (ha : MayMean root context? (Text.join "." first) (root.scopedName a))
    (hname : root.scopedName a ≠ []) (hb : descend root a rest = .ok b) :
    MayMean root context? (Text.join "." (first ++ rest)) (root.scopedName b) := by
  have hnames := scopedNames_of_descend h hb
  by_cases hrest : rest = []
  · rw [hrest, List.append_nil] at hnames
    rwa [scopedName_eq_join, hnames, hrest, List.append_nil]
  · have hsome : root.scopedNames a ≠ [] := by
      intro hnil
      exact hname (by rw [scopedName_eq_join, hnil, Text.join_nil])
    rw [scopedName_eq_join, hnames, Text.join_append _ hsome hrest, Text.join_append _ hfirst hrest,
      List.append_assoc, List.append_assoc]
    exact ha.append _

theorem join_ne_nil (hnames : names ≠ []) (h : ∀ n ∈ names, n ≠ []) : Text.join "." names ≠ [] := by
  obtain ⟨n, names, rfl⟩ := List.exists_cons_of_ne_nil hnames
  obtain ⟨hn, _⟩ := List.forall_mem_cons.mp h
  by_cases hnil : names = []
  · rwa [hnil, Text.join_singleton]
  · rw [Text.join_cons _ _ hnil]
    simp [hn]

theorem MayMean.ne_nil (h : MayMean root context? name full) (hname : name ≠ []) : full ≠ [] := by
  obtain rfl | ⟨_, _, _, _, rfl⟩ := h
  · exact hname
  · simp

/-- No name of a reference is empty. -/
theorem ne_nil_of_mem_segments (package? : Option Text) (text : Text) :
    ∀ n ∈ segments package? text, n ≠ [] := by
  intro n hn
  have hn := (List.mem_filter.mp hn).2
  simpa using hn

/-- The names of a reference as it is read inside a declaration, or outside of all. -/
def namesOf (root : Declaration) (context? : Option Address) (text : Text) : List Text :=
  segments ((context?.bind root.packageOf?).map root.nameAt) text

/-- What a reference leads to has a full name that the names of the reference may stand for. -/
theorem mayMean_of_reference (h : PackageTree root) {text : Text}
    (ha : reference root (TypeMap.of root).value context? text = .ok a) :
    namesOf root context? text ≠ [] ∧
      MayMean root context? (Text.join "." (namesOf root context? text)) (root.scopedName a) := by
  have hne := ne_nil_of_mem_segments ((context?.bind root.packageOf?).map root.nameAt) text
  unfold reference at ha
  unfold namesOf
  dsimp only at ha
  split at ha
  · cases ha
  · rename_i first rest hnames
    rw [hnames] at hne ⊢
    refine ⟨List.cons_ne_nil _ _, ?_⟩
    split at ha
    · rename_i t below hfound
      obtain ⟨n, hn, _, hlookup, rfl, _⟩ := longestType?_eq_some hfound
      have htake : (first :: rest).take n ≠ [] := by
        simpa using hn.ne'
      have hmay := mayMean_of_lookupFrom hlookup
      have hname := join_ne_nil htake fun m hm => hne m (List.mem_of_mem_take hm)
      have hall := mayMean_of_descend h htake hmay (hmay.ne_nil hname) ha
      rwa [List.take_append_drop] at hall
    · split at ha
      · rename_i t hfound
        obtain ⟨package, hpackage, hexport⟩ := Option.bind_eq_some_iff.mp hfound
        obtain ⟨context, _, hpackage⟩ := Option.bind_eq_some_iff.mp hpackage
        obtain rfl := packageOf?_eq_some h hpackage
        obtain ⟨hmem, hname⟩ := findExport?_eq_some hexport
        have hnames := scopedNames_of_descend h ha
        rw [h.scopedNames_of_mem_exportsAt hmem, scopedNames_root h, hname] at hnames
        refine .inl ?_
        rw [scopedName_eq_join, hnames]
        rfl
      · cases ha

/-- What is said when a step down fails says something. -/
theorem ne_nil_of_descend {message : Text} (h : descend root a names = .error message) :
    message ≠ [] := by
  induction names generalizing a with
  | nil => cases h
  | cons name names ih =>
    unfold descend at h
    split at h
    · exact ih h
    · obtain rfl := Except.error.inj h
      simp [Text.quoted]

/-- A reference that leads nowhere is refused with a reason. -/
theorem ne_nil_of_reference {types : TypeMap} {text message : Text}
    (h : reference root types context? text = .error message) : message ≠ [] := by
  unfold reference at h
  dsimp only at h
  split at h
  · obtain rfl := Except.error.inj h
    simp [Text.quoted]
  · split at h
    · exact ne_nil_of_descend h
    · split at h
      · exact ne_nil_of_descend h
      · obtain rfl := Except.error.inj h
        simp [Text.quoted]

/-- Whatever stands in a reference and wherever it is read, it either leads to a declaration of the
package whose full name is made of the names of the reference, alone or behind the full name of a
declaration around the place where it is read, or it is refused with a reason. -/
theorem reference_named_or_refused (h : PackageTree root) (context? : Option Address)
    (text : Text) :
    (∃ a ∈ root.walk, reference root (TypeMap.of root).value context? text = .ok a ∧
      namesOf root context? text ≠ [] ∧
      MayMean root context? (Text.join "." (namesOf root context? text)) (root.scopedName a)) ∨
    ∃ message, reference root (TypeMap.of root).value context? text = .error message ∧
      message ≠ [] := by
  cases hresult : reference root (TypeMap.of root).value context? text with
  | ok a =>
    have hwalk := mem_walk_of_reference (TypeMap.within_of root) hresult
    exact .inl ⟨a, hwalk, rfl, mayMean_of_reference h hresult⟩
  | error message => exact .inr ⟨message, rfl, ne_nil_of_reference hresult⟩

/-- A package with a class in a namespace. -/
def zoo : Declaration :=
  ⟨.plain .package "zoo", [⟨.plain .entryPoint [], [
    ⟨.plain .nameSpace "Park", [⟨.plain .classType "Cat", [⟨.plain .method "purr", []⟩]⟩]⟩,
    ⟨.plain .function "adopt", []⟩]⟩]⟩

/-- A reference with a selector, read inside the class that it names. -/
theorem reference_named_of_zoo :
    PackageTree zoo ∧ namesOf zoo (some [0, 0, 0]) "Cat.(purr:1)" = ["Cat", "purr"] ∧
    ((∃ a ∈ zoo.walk,
      reference zoo (TypeMap.of zoo).value (some [0, 0, 0]) "Cat.(purr:1)" = .ok a ∧
      namesOf zoo (some [0, 0, 0]) "Cat.(purr:1)" ≠ [] ∧
      MayMean zoo (some [0, 0, 0]) (Text.join "." (namesOf zoo (some [0, 0, 0]) "Cat.(purr:1)"))
        (zoo.scopedName a)) ∨
    ∃ message,
      reference zoo (TypeMap.of zoo).value (some [0, 0, 0]) "Cat.(purr:1)" = .error message ∧
      message ≠ []) := by
  have hzoo : PackageTree zoo := by decide
  exact ⟨hzoo, by decide +kernel, reference_named_or_refused hzoo _ _⟩

end ApiReference.Scope
