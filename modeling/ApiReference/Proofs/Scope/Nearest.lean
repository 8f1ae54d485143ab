import ApiReference.Proofs.Scope.Named
import ApiReference.Proofs.Scope.Segments

/-!
# The nearest scope and the longest name

The first name of a reference has a nearest scope that declares it, but as many names as
possible are taken together first, in whatever scope they name a type (`LongestType`).
The other names are members below that type, so the reference leads inside of it
(`prefix_of_descend`), and what the first name stands for is not met on the way down
(`LongestType.eq_of_descend`).  Hence the reference leads into what its first name stands
for exactly if the longest type is in there (`reference_inside_first_iff`).  A type of an
outer scope that has more of the names takes the reference away from it.
-/

namespace ApiReference.Scope

open Declaration

variable {root : Declaration} {types : TypeMap} {context a b c s t : Address}
variable {first scope name : Text} {names rest : List Text} {n : Nat}

/-! ## The longest type -/

/-- Of the names of a reference the first `n` stand for a type inside a declaration, and no more of
them do. -/
structure LongestType (root : Declaration) (types : TypeMap) (context : Address)
    (names : List Text) (n : Nat) (s : Address) : Prop where
  pos : 0 < n
  le_length : n ≤ names.length
  resolve_eq : resolve root types context (Text.join "." (names.take n)) = some s
  longer : ∀ m, n < m → m ≤ names.length →
    resolve root types context (Text.join "." (names.take m)) = none

/-- If the first name stands for a type, there is a longest one. -/
theorem exists_longestType (hfirst : resolve root types context first = some t)
    (rest : List Text) : ∃ n s, LongestType root types context (first :: rest) n s := by
  cases hlongest : longestType? (resolve root types context) (first :: rest)
      (first :: rest).length with
  | some found =>
    obtain ⟨s, below⟩ := found
    obtain ⟨n, hpos, hle, hresolve, -, hlonger⟩ := longestType?_eq_some hlongest
    exact ⟨n, s, hpos, hle, hresolve, hlonger⟩
  | none =>
    have hnone := longestType?_eq_none hlongest 1 Nat.one_pos (by simp)
    rw [List.take_succ_cons, List.take_zero, Text.join_singleton, hfirst] at hnone
    cases hnone

/-- A reference goes to its longest type, and from there down the names that are left. -/
theorem LongestType.reference_eq (h : LongestType root types context names n s)
    (hnames : ∀ name ∈ names, isWordName name = true) :
    reference root types (some context) (Text.join "." names) =
      descend root s (names.drop n) := by
  have hne : names ≠ [] := List.ne_nil_of_length_pos (h.pos.trans_le h.le_length)
  have hlongest : longestType? (lookupFrom root types (some context)) names names.length =
      some (s, names.drop n) := by
    obtain ⟨k, rfl⟩ := Nat.exists_eq_add_one_of_ne_zero h.pos.ne'
    have hlookup : lookupFrom root types (some context) (Text.join "." (names.take (k + 1))) =
        some s := h.resolve_eq
    have hlonger : ∀ m, k + 1 < m → m ≤ names.length →
        lookupFrom root types (some context) (Text.join "." (names.take m)) = none := h.longer
    rw [longestType?_skip h.le_length hlonger, longestType?, hlookup]
  obtain ⟨first, rest, rfl⟩ := List.exists_cons_of_ne_nil hne
  unfold reference
  dsimp only
  rw [segments_join _ hnames]
  dsimp only
  rw [hlongest]

/-! ## Down from a type -/

/-- What is found below a declaration is inside it. -/
theorem prefix_of_descend (h : descend root a names = .ok b) : a <+: b := by
  induction names generalizing a with
  | nil =>
    obtain rfl := Except.ok.inj h
    exact List.prefix_rfl
  | cons name names ih =>
    unfold descend at h
    split at h
    · rename_i c hc
      exact (prefix_of_mem_exportsAt (findExport?_eq_some hc).1).1.trans (ih h)
    · cases h

/-- On the way from an address to one below it there is nothing between a declaration and its export
but an entry point. -/
theorem between_of_mem_exportsAt (hb : b ∈ root.exportsAt a) (hat : a <+: t) (htb : t <+: b) :
    t = a ∨ t = b ∨ root.kind? t = some .entryPoint := by
  obtain ⟨d, hd, ⟨-, hb⟩ | ⟨k, e, -, hkind, hget, hb⟩⟩ := mem_exportsAt_cases hb
  · obtain ⟨i, _, rfl, _⟩ := (mem_memberAddresses_iff hd).mp hb
    rcases List.prefix_concat_iff.mp htb with rfl | hta
    · exact .inr (.inl rfl)
    · exact .inl (hta.eq_of_length_le hat.length_le)
  · obtain ⟨i, _, rfl, _⟩ := (mem_memberAddresses_iff hget).mp hb
    rcases List.prefix_concat_iff.mp htb with rfl | hte
    · exact .inr (.inl rfl)
    · rcases List.prefix_concat_iff.mp hte with rfl | hta
      · exact .inr (.inr (by rw [kind?, hget, Option.map_some, hkind]))
      · exact .inl (hta.eq_of_length_le hat.length_le)

/-- A type on the way down is one of the declarations that are met there. -/
theorem exists_take_of_descend (htype : (root.kind? t).any Kind.isType = true)
    (h : descend root a names = .ok b) (hat : a <+: t) (htb : t <+: b) :
    ∃ k, k ≤ names.length ∧ descend root a (names.take k) = .ok t := by
  induction names generalizing a with
  | nil =>
    obtain rfl := Except.ok.inj h
    exact ⟨0, le_refl _, by rw [htb.eq_of_length_le hat.length_le]; rfl⟩
  | cons name names ih =>
    unfold descend at h
    split at h
    · rename_i c hc
      have hmem := (findExport?_eq_some hc).1
      rcases List.prefix_or_prefix_of_prefix htb (prefix_of_descend h) with htc | hct
      · rcases between_of_mem_exportsAt hmem hat htc with rfl | rfl | hentry
        · exact ⟨0, Nat.zero_le _, rfl⟩
        · exact ⟨1, by simp, by rw [List.take_succ_cons, List.take_zero, descend, hc]; rfl⟩
        · rw [hentry] at htype
          cases htype
      · obtain ⟨k, hk, ht⟩ := ih h hct
        exact ⟨k + 1, Nat.succ_le_succ hk, by rw [List.take_succ_cons, descend, hc]; exact ht⟩
    · cases h

/-! ## What the first name stands for -/

theorem qualify_append (scope name rest : Text) :
    qualify scope (name ++ rest) = qualify scope name ++ rest := by
  unfold qualify
  split
  · rfl
  · rw [List.append_assoc, List.cons_append]

/-- A name that stands for something starts with a character of a word, and has a scope in which it
does. -/
theorem resolve_eq_some (h : resolve root types context name = some t) :
    name.head?.any Text.isWord = true ∧
      ∃ b ∈ hierarchy context, types.lookup (qualify (root.scopedName b) name) = some t := by
  unfold resolve at h
  split at h
  · rename_i hhead
    obtain ⟨c, hc, hlookup⟩ := List.exists_of_findSome?_eq_some h
    obtain ⟨b, hb, rfl⟩ := mem_candidates.mp hc
    exact ⟨hhead, b, hb, hlookup⟩
  · cases h

/-- A name that stands for something in a scope around a declaration stands for something there. -/
theorem resolve_ne_none (hhead : name.head?.any Text.isWord = true) (hb : b ∈ hierarchy context)
    (hlookup : types.lookup (qualify (root.scopedName b) name) = some t) :
    resolve root types context name ≠ none := by
  intro hnone
  rw [resolve, if_pos hhead, List.findSome?_eq_none_iff] at hnone
  rw [hnone _ (mem_candidates.mpr ⟨b, hb, rfl⟩)] at hlookup
  cases hlookup

/-- Names start with what their first one starts with. -/
theorem head?_join_take (hfirst : first ≠ []) (hn : 0 < n) :
    (Text.join "." ((first :: rest).take n)).head? = first.head? := by
  obtain ⟨k, rfl⟩ := Nat.exists_eq_add_one_of_ne_zero hn.ne'
  rw [List.take_succ_cons]
  by_cases hrest : rest.take k = []
  · rw [hrest, Text.join_singleton]
  · rw [Text.join_cons _ _ hrest, List.append_assoc, List.head?_append_of_ne_nil _ hfirst]

/-- Below the longest type no type is met that would be found in some scope, since it would be found
there by more of the names. -/
theorem LongestType.eq_of_descend (h : PackageTree root)
    (hlongest : LongestType root (TypeMap.of root).value context (first :: rest) n s)
    (hnames : ∀ name ∈ first :: rest, isWordName name = true)
    (ht : (TypeMap.of root).value.lookup (root.scopedName t) = some t) {k : Nat}
    (hk : k ≤ ((first :: rest).drop n).length)
    (hdescend : descend root s (((first :: rest).drop n).take k) = .ok t) : k = 0 := by
  by_contra hne
  have hfirst : first ≠ [] := (isWordName_iff.mp (hnames first (List.mem_cons_self ..))).1
  have htake : (first :: rest).take n ≠ [] := by
    simpa using hlongest.pos.ne'
  have hbelow : ((first :: rest).drop n).take k ≠ [] :=
    List.ne_nil_of_length_pos (by rw [List.length_take]; omega)
  obtain ⟨hhead, b, hb, hlookup⟩ := resolve_eq_some hlongest.resolve_eq
  have hfull := (TypeMap.scopedName_of_lookup hlookup).2
  have hsome : root.scopedNames s ≠ [] := by
    intro hnil
    rw [scopedName_eq_join, hnil, Text.join_nil] at hfull
    have hjoin := join_ne_nil htake fun m hm =>
      (isWordName_iff.mp (hnames m (List.mem_of_mem_take hm))).1
    rw [qualify] at hfull
    split at hfull
    · exact hjoin hfull.symm
    · simp at hfull
  have hmore : root.scopedName t =
      qualify (root.scopedName b) (Text.join "." ((first :: rest).take (n + k))) := by
    rw [scopedName_eq_join, scopedNames_of_descend h hdescend, Text.join_append _ hsome hbelow,
      ← scopedName_eq_join, hfull, List.take_add, Text.join_append _ htake hbelow,
      List.append_assoc, List.append_assoc, qualify_append]
  rw [hmore] at ht
  rw [head?_join_take hfirst hlongest.pos, ← head?_join_take hfirst (n := n + k)] at hhead
  · refine resolve_ne_none hhead hb ht (hlongest.longer (n + k) (by omega) ?_)
    rw [List.length_drop] at hk
    have hle := hlongest.le_length
    omega
  · exact Nat.add_pos_left hlongest.pos k

/-- A reference whose first name stands for a type leads into that type exactly if the longest type
is in there: then it ends at the type, at a declaration inside it or with an error, and otherwise
it ends outside. -/
theorem reference_inside_first_iff (h : PackageTree root)
    (hnames : ∀ name ∈ first :: rest, isWordName name = true)
    (hfirst : resolve root (TypeMap.of root).value context first = some t) :
    ∃ n s, LongestType root (TypeMap.of root).value context (first :: rest) n s ∧
      ∀ a, reference root (TypeMap.of root).value (some context)
        (Text.join "." (first :: rest)) = .ok a → s <+: a ∧ (t <+: a ↔ t <+: s) := by
  obtain ⟨n, s, hlongest⟩ := exists_longestType hfirst rest
  refine ⟨n, s, hlongest, fun a ha => ?_⟩
  rw [hlongest.reference_eq hnames] at ha
  have hsa := prefix_of_descend ha
  refine ⟨hsa, fun hta => ?_, fun hts => hts.trans hsa⟩
  rcases List.prefix_or_prefix_of_prefix hta hsa with hts | hst
  · exact hts
  · obtain ⟨b, -, hlookup⟩ := (resolve_eq_some hfirst).2
    obtain ⟨htype, hfull⟩ := TypeMap.scopedName_of_lookup hlookup
    rw [← hfull] at hlookup
    obtain ⟨k, hk, hdescend⟩ := exists_take_of_descend htype ha hst hta
    obtain rfl := hlongest.eq_of_descend h hnames hlookup hk hdescend
    obtain rfl := Except.ok.inj hdescend
    exact List.prefix_rfl

/-- A class in one namespace, and another namespace with the name of the class. -/
def shop : Declaration :=
  ⟨.plain .package "shop", [⟨.plain .entryPoint [], [
    ⟨.plain .nameSpace "Order", [⟨.plain .enumType "Status", []⟩]⟩,
    ⟨.plain .nameSpace "Store", [⟨.plain .classType "Order", [
      ⟨.plain .property "Status", []⟩, ⟨.plain .method "cancel", []⟩]⟩]⟩]⟩]⟩

/-- Inside the class, a reference to a method of it leads there. -/
theorem reference_inside_order :
    PackageTree shop ∧ (∀ name ∈ (["Order", "cancel"] : List Text), isWordName name = true) ∧
    resolve shop (TypeMap.of shop).value [0, 1, 0] "Order" = some [0, 1, 0] ∧
    reference shop (TypeMap.of shop).value (some [0, 1, 0])
      (Text.join "." (["Order", "cancel"] : List Text)) = .ok [0, 1, 0, 1] ∧
    ∃ n s, LongestType shop (TypeMap.of shop).value [0, 1, 0] ["Order", "cancel"] n s ∧
      ∀ a, reference shop (TypeMap.of shop).value (some [0, 1, 0])
        (Text.join "." (["Order", "cancel"] : List Text)) = .ok a →
          s <+: a ∧ ([0, 1, 0] <+: a ↔ [0, 1, 0] <+: s) := by
  have htree : PackageTree shop := by decide +kernel
  have hnames : ∀ name ∈ (["Order", "cancel"] : List Text), isWordName name = true := by
    decide +kernel
  have hfirst : resolve shop (TypeMap.of shop).value [0, 1, 0] "Order" = some [0, 1, 0] := by
    decide +kernel
  exact ⟨htree, hnames, hfirst, by decide +kernel, reference_inside_first_iff htree hnames hfirst⟩

/-- Inside the class, whose name its first name stands for, a reference leads out to an enumeration
of the other namespace, although the class has a member of that name. -/
theorem reference_leaves_order :
    PackageTree shop ∧ (∀ name ∈ (["Order", "Status"] : List Text), isWordName name = true) ∧
    resolve shop (TypeMap.of shop).value [0, 1, 0] "Order" = some [0, 1, 0] ∧
    reference shop (TypeMap.of shop).value (some [0, 1, 0])
      (Text.join "." (["Order", "Status"] : List Text)) = .ok [0, 0, 0] ∧
    ¬ [0, 1, 0] <+: [0, 0, 0] ∧ findExport? shop [0, 1, 0] "Status" = some [0, 1, 0, 0] := by
  decide +kernel

end ApiReference.Scope
