import ApiReference.Proofs.Scope.Named
import Mathlib.Data.List.Induction

/-!
# Names inside a declaration and outside of it

Full names grow from a container to its members or stay as they are, and they grow
strictly where they change (`scopedName_concat`).  So the scopes around a declaration
repeat next to each other only, and the candidates for a name inside a member are those
inside its container, with at most one more in front (`candidates_concat`).  What a name
stands for outside it therefore stands for inside as well, unless the scope of the member
itself declares the name (`resolve_inside`).
-/

namespace ApiReference.Scope

open Declaration

variable {root : Declaration} {types : TypeMap} {a b p t : Address} {i : Nat}
variable {name new scope scope' : Text} {names found : List Text}

/-! ## Full names along a way -/

/-- One step further on a way there is at most one declaration more. -/
theorem lineage_concat_cases (root : Declaration) (p : Address) (i : Nat) :
    root.lineage (p ++ [i]) = root.lineage p ∨
      ∃ info, root.lineage (p ++ [i]) = root.lineage p ++ [info] := by
  induction p generalizing root with
  | nil =>
    rw [List.nil_append, lineage, lineage]
    cases root.members[i]? with
    | none => exact .inl rfl
    | some m => exact .inr ⟨m.toInfo, rfl⟩
  | cons k p ih =>
    rw [List.cons_append, lineage, lineage]
    cases root.members[k]? with
    | none => exact .inl rfl
    | some m =>
      dsimp only
      rcases ih m with hsame | ⟨info, hmore⟩
      · exact .inl (by rw [hsame])
      · exact .inr ⟨info, by rw [hmore, List.cons_append]⟩

/-- One more name makes a full name longer, unless it is empty and the only one. -/
theorem join_concat_cases (names : List Text) (name : Text) :
    Text.join "." (names ++ [name]) = Text.join "." names ∨
      (Text.join "." names).length < (Text.join "." (names ++ [name])).length := by
  by_cases hnames : names = []
  · subst hnames
    rw [List.nil_append, Text.join_singleton, Text.join_nil]
    cases name with
    | nil => exact .inl rfl
    | cons c t => exact .inr (Nat.succ_pos _)
  · apply Or.inr
    have hdot : ("." : Text).length = 1 := rfl
    rw [Text.join_append_singleton _ _ hnames, List.length_append, List.length_append, hdot]
    omega

/-- The full name of a member is that of its container or longer. -/
theorem scopedName_concat (root : Declaration) (p : Address) (i : Nat) :
    root.scopedName (p ++ [i]) = root.scopedName p ∨
      (root.scopedName p).length < (root.scopedName (p ++ [i])).length := by
  rw [scopedName, scopedName]
  rcases lineage_concat_cases root p i with hsame | ⟨info, hmore⟩
  · exact .inl (by rw [hsame])
  · rw [hmore, scopedNameOf, scopedNameOf, List.filter_append, List.filter_singleton]
    cases info.kind.isRoot with
    | true => exact .inl (by rw [Bool.not_true, cond_false, List.append_nil])
    | false =>
      rw [Bool.not_false, cond_true, List.map_append]
      exact join_concat_cases _ _

theorem hierarchy_concat (p : Address) (i : Nat) :
    hierarchy (p ++ [i]) = hierarchy p ++ [p ++ [i]] := by
  have hlength : (p ++ [i]).length = p.length + 1 := by rw [List.length_append]; rfl
  rw [hierarchy, hierarchy, hlength, List.range_succ, List.map_append]
  congr 1
  · apply List.map_congr_left
    intro n hn
    exact List.take_append_of_le_length (Nat.lt_succ_iff.mp (List.mem_range.mp hn))
  · rw [List.map_singleton, ← hlength, List.take_length]

/-- The full name of a container is that of what is inside or shorter. -/
theorem scopedName_of_mem_hierarchy (root : Declaration) (h : b ∈ hierarchy p) :
    root.scopedName b = root.scopedName p ∨
      (root.scopedName b).length < (root.scopedName p).length := by
  induction p using List.reverseRecOn with
  | nil =>
    obtain rfl := List.mem_singleton.mp h
    exact .inl rfl
  | append_singleton p i ih =>
    rw [hierarchy_concat, List.mem_append, List.mem_singleton] at h
    rcases h with h | rfl
    · rcases scopedName_concat root p i with hsame | hlonger
      · rw [hsame]
        exact ih h
      · apply Or.inr
        rcases ih h with heq | hlt
        · rwa [heq]
        · exact hlt.trans hlonger
    · exact .inl rfl

/-! ## Candidates -/

/-- A name reads longer in a longer scope. -/
theorem length_qualify_lt (name : Text) (h : scope.length < scope'.length) :
    (qualify scope name).length < (qualify scope' name).length := by
  have hscope' : scope'.isEmpty = false := by
    cases scope' with
    | nil => exact absurd h (Nat.not_lt_zero _)
    | cons c t => rfl
  unfold qualify
  rw [hscope']
  split
  · simp only [Bool.false_eq_true, if_false, List.length_append, List.length_cons]
    omega
  · simp only [Bool.false_eq_true, if_false, List.length_append, List.length_cons]
    omega

theorem nodup_addNew (h : names.Nodup) (name : Text) : (addNew names name).Nodup := by
  unfold addNew
  split
  · exact h
  · rename_i hnew
    rw [← List.concat_eq_append, List.nodup_concat]
    exact ⟨fun hmem => hnew (List.contains_iff_mem.mpr hmem), h⟩

theorem nodup_foldl_addNew (h : found.Nodup) (names : List Text) :
    (names.foldl addNew found).Nodup := by
  induction names generalizing found with
  | nil => exact h
  | cons name names ih => exact ih (nodup_addNew h name)

/-- A name that is none of those to come stays in front of them. -/
theorem foldl_addNew_cons (h : new ∉ names) (found : List Text) :
    names.foldl addNew (new :: found) = new :: names.foldl addNew found := by
  induction names generalizing found with
  | nil => rfl
  | cons name names ih =>
    obtain ⟨hne, hnames⟩ := not_or.mp (mt List.mem_cons.mpr h)
    have hadd : addNew (new :: found) name = new :: addNew found name := by
      unfold addNew
      rw [List.contains_cons, beq_eq_false_iff_ne.mpr (Ne.symm hne), Bool.false_or]
      split
      · rfl
      · rfl
    rw [List.foldl_cons, List.foldl_cons, hadd, ih hnames]

/-- What was found first stays in front. -/
theorem exists_foldl_addNew (names found : List Text) :
    ∃ more, names.foldl addNew found = found ++ more := by
  induction names generalizing found with
  | nil => exact ⟨[], (List.append_nil found).symm⟩
  | cons name names ih =>
    obtain ⟨more, hmore⟩ := ih (addNew found name)
    rw [List.foldl_cons, hmore]
    unfold addNew
    split
    · exact ⟨more, rfl⟩
    · exact ⟨[name] ++ more, List.append_assoc ..⟩

/-- The readings of a name in the scopes around a declaration, each scope in turn. -/
def readings (root : Declaration) (a : Address) (name : Text) : List Text :=
  (hierarchy a).reverse.map fun b => qualify (root.scopedName b) name

theorem candidates_eq_readings (root : Declaration) (a : Address) (name : Text) :
    candidates root a name = (readings root a name).foldl addNew [] := by
  rw [candidates, readings, List.foldl_map]

theorem readings_concat (root : Declaration) (p : Address) (i : Nat) (name : Text) :
    readings root (p ++ [i]) name =
      qualify (root.scopedName (p ++ [i])) name :: readings root p name := by
  rw [readings, hierarchy_concat, List.reverse_append, List.map_append]
  rfl

/-- The first reading is that in the scope of the declaration itself. -/
theorem exists_readings_eq (root : Declaration) (a : Address) (name : Text) :
    ∃ outer, readings root a name = qualify (root.scopedName a) name :: outer := by
  induction a using List.reverseRecOn with
  | nil => exact ⟨[], rfl⟩
  | append_singleton p i _ => exact ⟨readings root p name, readings_concat root p i name⟩

/-- The first candidate is the reading in the scope of the declaration itself. -/
theorem exists_candidates_eq (root : Declaration) (a : Address) (name : Text) :
    ∃ outer, candidates root a name = qualify (root.scopedName a) name :: outer := by
  obtain ⟨outer, houter⟩ := exists_readings_eq root a name
  rw [candidates_eq_readings, houter, List.foldl_cons]
  exact exists_foldl_addNew outer [qualify (root.scopedName a) name]

theorem nodup_candidates (root : Declaration) (a : Address) (name : Text) :
    (candidates root a name).Nodup := by
  rw [candidates_eq_readings]
  exact nodup_foldl_addNew List.nodup_nil _

/-- Inside a member a name has the candidates that it has in its container, and the reading in the
scope of the member in front of them if that is a new one. -/
theorem candidates_concat (root : Declaration) (p : Address) (i : Nat) (name : Text) :
    candidates root (p ++ [i]) name = candidates root p name ∨
      candidates root (p ++ [i]) name =
        qualify (root.scopedName (p ++ [i])) name :: candidates root p name := by
  rw [candidates_eq_readings, candidates_eq_readings, readings_concat]
  rcases scopedName_concat root p i with hsame | hlonger
  · -- the first reading is found again at once
    obtain ⟨outer, houter⟩ := exists_readings_eq root p name
    rw [hsame, houter]
    refine .inl ?_
    have hagain : addNew [qualify (root.scopedName p) name] (qualify (root.scopedName p) name) =
        [qualify (root.scopedName p) name] := by
      unfold addNew
      rw [if_pos (List.contains_iff_mem.mpr (List.mem_singleton_self _))]
    exact congrArg (outer.foldl addNew) hagain
  · -- a longer reading is none of those further outside
    refine .inr (foldl_addNew_cons ?_ [])
    intro hmem
    obtain ⟨b, hb, heq⟩ := List.mem_map.mp hmem
    have hshorter : (root.scopedName b).length < (root.scopedName (p ++ [i])).length := by
      rcases scopedName_of_mem_hierarchy root (List.mem_reverse.mp hb) with hsame | hlt
      · rwa [hsame]
      · exact hlt.trans hlonger
    exact (length_qualify_lt name hshorter).ne (congrArg List.length heq)

/-! ## What a name stands for -/

/-- A name that is the name of a type stands for the type that has the first of its candidates that
any type has. -/
theorem resolve_eq_some_iff (hname : name.head?.any Text.isWord = true) :
    resolve root types a name = some t ↔ ∃ nearer candidate farther,
      candidates root a name = nearer ++ candidate :: farther ∧
        types.lookup candidate = some t ∧ ∀ other ∈ nearer, types.lookup other = none := by
  rw [resolve, if_pos hname, List.findSome?_eq_some_iff]

/-- Inside a member a name stands for the type that has its reading in the scope of the member, and
if there is none, for what it stands for in the container. -/
theorem resolve_concat (root : Declaration) (types : TypeMap) (p : Address) (i : Nat)
    (hname : name.head?.any Text.isWord = true) :
    resolve root types (p ++ [i]) name =
      (types.lookup (qualify (root.scopedName (p ++ [i])) name)).or
        (resolve root types p name) := by
  rw [resolve, if_pos hname, resolve, if_pos hname]
  rcases candidates_concat root p i name with hsame | hmore
  · obtain ⟨outer, houter⟩ := exists_candidates_eq root (p ++ [i]) name
    rw [← hsame, houter, List.findSome?_cons]
    cases types.lookup (qualify (root.scopedName (p ++ [i])) name) with
    | none => rfl
    | some t => rfl
  · rw [hmore, List.findSome?_cons]
    cases types.lookup (qualify (root.scopedName (p ++ [i])) name) with
    | none => rfl
    | some t => rfl

/-- Scopes are lexical.  The candidates for a name inside a member are all different, and they are
those inside its container or these behind a new one.  If it starts with a character of words, the
name stands for the type that has the first candidate that any type has.  So what stands for
something in the container stands for something inside, and for another type only if the scope of
the member declares the name. -/
theorem resolve_inside (root : Declaration) (types : TypeMap) (p : Address) (i : Nat)
    (name : Text) :
    (candidates root (p ++ [i]) name).Nodup ∧
    (candidates root (p ++ [i]) name = candidates root p name ∨
      ∃ new, candidates root (p ++ [i]) name = new :: candidates root p name) ∧
    (name.head?.any Text.isWord = true →
      (∀ t, resolve root types (p ++ [i]) name = some t ↔ ∃ nearer candidate farther,
        candidates root (p ++ [i]) name = nearer ++ candidate :: farther ∧
          types.lookup candidate = some t ∧ ∀ other ∈ nearer, types.lookup other = none) ∧
      ∀ t, resolve root types p name = some t →
        ∃ t', resolve root types (p ++ [i]) name = some t' ∧
          (t' ≠ t → types.lookup (qualify (root.scopedName (p ++ [i])) name) = some t')) := by
  refine ⟨nodup_candidates root _ name, ?_, fun hname => ⟨fun t => resolve_eq_some_iff hname, ?_⟩⟩
  · rcases candidates_concat root p i name with hsame | hmore
    · exact .inl hsame
    · exact .inr ⟨_, hmore⟩
  · intro t ht
    rw [resolve_concat root types p i hname, ht]
    cases hown : types.lookup (qualify (root.scopedName (p ++ [i])) name) with
    | none => exact ⟨t, rfl, fun hne => absurd rfl hne⟩
    | some t' => exact ⟨t', rfl, fun _ => rfl⟩

/-- A package with a class at the top and one of the same name in a namespace. -/
def pound : Declaration :=
  ⟨.plain .package "pound", [⟨.plain .entryPoint [], [⟨.plain .classType "Dog", []⟩,
    ⟨.plain .nameSpace "Shelter", [⟨.plain .classType "Dog", []⟩]⟩]⟩]⟩

theorem resolve_inside_shelter :
    ("Dog" : Text).head?.any Text.isWord = true ∧
    resolve pound (TypeMap.of pound).value [0] "Dog" = some [0, 0] ∧
    resolve pound (TypeMap.of pound).value [0, 1] "Dog" = some [0, 1, 0] ∧
    ∃ t, resolve pound (TypeMap.of pound).value [0, 1] "Dog" = some t ∧
      (t ≠ [0, 0] →
        (TypeMap.of pound).value.lookup (qualify (pound.scopedName [0, 1]) "Dog") = some t) := by
  have hname : ("Dog" : Text).head?.any Text.isWord = true := by decide
  have houter : resolve pound (TypeMap.of pound).value [0] "Dog" = some [0, 0] := by
    decide +kernel
  have hinner : resolve pound (TypeMap.of pound).value [0, 1] "Dog" = some [0, 1, 0] := by
    decide +kernel
  obtain ⟨-, -, hinside⟩ := resolve_inside pound (TypeMap.of pound).value [0] 1 "Dog"
  exact ⟨hname, houter, hinner, (hinside hname).2 [0, 0] houter⟩

/-- A package with a class whose name is a text in quotes. -/
def quotedPound : Declaration :=
  ⟨.plain .package "pound", [⟨.plain .entryPoint [], [⟨.plain .classType "\"Dog\"", []⟩]⟩]⟩

/-- A quotation stands for nothing, even where the first of its candidates is that of a type. -/
theorem resolve_quoted_eq_none :
    (candidates quotedPound [0, 0] "\"Dog\"").findSome?
      (fun candidate => (TypeMap.of quotedPound).value.lookup candidate) = some [0, 0] ∧
    resolve quotedPound (TypeMap.of quotedPound).value [0, 0] "\"Dog\"" = none := by
  decide +kernel

end ApiReference.Scope
