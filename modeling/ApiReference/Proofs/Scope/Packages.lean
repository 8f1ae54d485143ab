import ApiReference.Proofs.Scope.FullNames

/-!
# References behind a package name

In front of the first `#` of a reference stands a package name or a declaration.  A
package name is dropped, and the names behind it are those that the rest of the
reference lists alone (`namesOf_package`), since blanks around names do not count.  But
a second `#` is no mark any more: it stays in one of the names
(`exists_mem_listedNames`), and so the reference leads nowhere unless a declaration has
such a name.
-/

namespace ApiReference.Scope

open Declaration

variable {root : Declaration} {package context a b : Address} {context? : Option Address}
variable {name n r s t : Text} {names : List Text} {c : Char}

/-! ## Blanks around names -/

theorem ne_of_isBlank {d : Char} (hc : Text.isBlank c = true) (hd : Text.isBlank d = false) :
    c ≠ d := by
  rintro rfl
  rw [hc] at hd
  cases hd

theorem dropSelectors_append (h : ':' ∉ s) (t : Text) :
    dropSelectors false (s ++ t) = s ++ dropSelectors false t := by
  induction s with
  | nil => rfl
  | cons c s ih =>
    rw [List.mem_cons, not_or] at h
    rw [List.cons_append, dropSelectors, if_neg (by simp), if_neg (by simp [Ne.symm h.1]), ih h.2,
      List.cons_append]

theorem openGroups_append (h : '(' ∉ s) (t : Text) : openGroups (s ++ t) = s ++ openGroups t := by
  induction s with
  | nil => rfl
  | cons c s ih =>
    rw [List.mem_cons, not_or] at h
    rw [List.cons_append, openGroups, if_neg (Ne.symm h.1), ih h.2, List.cons_append]

/-- Blanks in front of a reference change none of its names. -/
theorem listedNames_append_blank (h : ∀ c ∈ s, Text.isBlank c = true) (t : Text) :
    listedNames (s ++ t) = listedNames t := by
  have hfree {d : Char} (hd : Text.isBlank d = false) : d ∉ s := fun hmem =>
    ne_of_isBlank (h d hmem) hd rfl
  have htilde : s.map (fun c => if c = '~' then '.' else c) = s :=
    (List.map_congr_left fun c hc => if_neg (ne_of_isBlank (h c hc) rfl)).trans (List.map_id s)
  unfold listedNames
  rw [List.map_append, htilde, dropSelectors_append (hfree rfl), openGroups_append (hfree rfl),
    Text.splitAt_append_of_not_mem (hfree rfl)]
  obtain ⟨piece, pieces, hsplit⟩ := List.exists_cons_of_ne_nil (Text.splitAt_ne_nil '.'
    (openGroups (dropSelectors false (t.map fun c => if c = '~' then '.' else c))))
  rw [hsplit, List.modifyHead_cons, List.map_cons, List.map_cons,
    Text.trim_append_blank h]

/-- It is enough to trim the end of a reference. -/
theorem listedNames_trimEnd (t : Text) :
    listedNames (Text.trimEnd t) = listedNames (Text.trim t) := by
  have hparts : t = t.takeWhile Text.isBlank ++ Text.trimStart t :=
    (List.takeWhile_append_dropWhile ..).symm
  have hblank : ∀ c ∈ t.takeWhile Text.isBlank, Text.isBlank c = true :=
    fun c hc => Text.isBlank_of_mem_takeWhile hc
  by_cases hnil : Text.trim t = []
  · have hend : Text.trimEnd t = [] := by
      rw [Text.trimEnd, List.reverse_eq_nil_iff, List.dropWhile_eq_nil_iff]
      exact fun c hc => Text.isBlank_of_trim_eq_nil hnil c (List.mem_reverse.mp hc)
    rw [hend, hnil]
  · have hend : Text.trimEnd t = t.takeWhile Text.isBlank ++ Text.trim t := by
      conv_lhs => rw [hparts]
      exact Text.trimEnd_append _ hnil
    rw [hend, listedNames_append_blank hblank]

/-! ## The package name -/

/-- A name that is recognised in front of a `#` as that of the package: it does not start with a
blank, unless it has a character that only package names have. -/
def Recognised (name : Text) : Prop :=
  Text.trimStart name = name ∨ ∃ c ∈ name, isPackageChar c = true

theorem isBlank_of_isPackageChar (h : isPackageChar c = true) : Text.isBlank c = false := by
  simp only [isPackageChar, Bool.or_eq_true, beq_iff_eq] at h
  rcases h with (rfl | rfl) | rfl <;> rfl

/-- A text around a mark is trimmed on both sides of it. -/
theorem trim_append_mark (name r : Text) :
    Text.trim (name ++ '#' :: r) = Text.trimStart name ++ '#' :: Text.trimEnd r := by
  have hstart : Text.trimStart (name ++ '#' :: r) = Text.trimStart name ++ '#' :: r := by
    rw [Text.trimStart, List.dropWhile_append]
    split
    · rename_i hnil
      rw [Text.trimStart, List.isEmpty_iff.mp hnil]
      rfl
    · rfl
  have hmark : Text.trimEnd ('#' :: r) = '#' :: Text.trimEnd r := Text.trimEnd_cons rfl r
  rw [Text.trim, hstart, Text.trimEnd_append _ (by rw [hmark]; exact List.cons_ne_nil _ _), hmark]

/-- The name of the package is dropped, and what stands behind it lists its names alone. -/
theorem segments_package (hmark : '#' ∉ name) (hname : Recognised name) (r : Text) :
    segments (some name) (name ++ '#' :: r) = listedNames (Text.trim r) := by
  have hstart : '#' ∉ Text.trimStart name := fun h =>
    hmark ((List.dropWhile_sublist Text.isBlank).subset h)
  have hpackage : ((Text.trimStart name).any isPackageChar ||
      some name == some (Text.trimStart name)) = true := by
    rcases hname with hname | ⟨c, hc, hpackage⟩
    · rw [hname, beq_self_eq_true, Bool.or_true]
    · have hkept := Text.mem_trimStart (isBlank_of_isPackageChar hpackage) hc
      rw [List.any_eq_true.mpr ⟨c, hkept, hpackage⟩, Bool.true_or]
  rw [segments_eq, trim_append_mark, dropPackage, Text.cut_append_cons hstart]
  dsimp only
  rw [if_pos hpackage, listedNames_trimEnd]

theorem namesOf_package (hpackage : root.packageOf? context = some package)
    (hmark : '#' ∉ root.nameAt package) (hname : Recognised (root.nameAt package)) (r : Text) :
    namesOf root (some context) (root.nameAt package ++ '#' :: r) = listedNames (Text.trim r) := by
  rw [namesOf, Option.bind_some, hpackage, Option.map_some, segments_package hmark hname]

/-- References that list the same names lead to the same declaration. -/
theorem reference_eq_ok_congr {types : TypeMap} {text text' : Text}
    (h : namesOf root context? text = namesOf root context? text') :
    reference root types context? text = .ok a ↔ reference root types context? text' = .ok a := by
  unfold namesOf at h
  unfold reference
  dsimp only
  rw [h]
  cases segments ((context?.bind root.packageOf?).map root.nameAt) text' with
  | nil =>
    constructor
    · intro hfound
      cases hfound
    · intro hfound
      cases hfound
  | cons first rest => exact Iff.rfl

/-! ## A mark in a name -/

/-- Nothing is dropped with selectors but colons and characters of words. -/
theorem mem_dropSelectors {inside : Bool} (hword : Text.isWord c = false) (hcolon : c ≠ ':')
    (h : c ∈ t) : c ∈ dropSelectors inside t := by
  induction t generalizing inside with
  | nil => exact h
  | cons d t ih =>
    rw [dropSelectors]
    rcases List.mem_cons.mp h with rfl | h
    · rw [if_neg (by simp [hword]), if_neg (by simp [hcolon])]
      exact List.mem_cons_self ..
    · split
      · exact ih h
      · split
        · exact ih h
        · exact List.mem_cons_of_mem _ (ih h)

/-- A group is blanks and a word up to the closing parenthesis. -/
theorem mem_group? {found : Text × Text} (hblank : Text.isBlank c = false) (hclose : c ≠ ')')
    (hfound : group? t = some found) (h : c ∈ t) : c ∈ found.1 ∨ c ∈ found.2 := by
  have hstart := Text.mem_trimStart hblank h
  unfold group? at hfound
  dsimp only at hfound
  split at hfound
  · rename_i rest hrest
    obtain rfl := Option.some.inj hfound
    rw [← List.takeWhile_append_dropWhile (p := isGroupChar) (l := Text.trimStart t),
      List.mem_append] at hstart
    refine hstart.imp id fun hword => ?_
    have hend := Text.mem_trimStart hblank hword
    rw [hrest] at hend
    exact (List.mem_cons.mp hend).resolve_left hclose
  · cases hfound

/-- Nothing is dropped with groups but parentheses and blanks. -/
theorem mem_openGroups (hblank : Text.isBlank c = false) (hopen : c ≠ '(') (hclose : c ≠ ')')
    (h : c ∈ t) : c ∈ openGroups t := by
  fun_induction openGroups t with
  | case1 => exact h
  | case2 t found hfound ih =>
    have hmem := (List.mem_cons.mp h).resolve_left hopen
    exact List.mem_append.mpr ((mem_group? hblank hclose hfound hmem).imp_right ih)
  | case3 t hnone ih =>
    exact List.mem_cons_of_mem _ (ih ((List.mem_cons.mp h).resolve_left hopen))
  | case4 d t hd ih =>
    rcases List.mem_cons.mp h with rfl | h
    · exact List.mem_cons_self ..
    · exact List.mem_cons_of_mem _ (ih h)

/-- A mark behind the package name is part of a name. -/
theorem exists_mem_listedNames (h : '#' ∈ t) : ∃ n ∈ listedNames t, '#' ∈ n := by
  have hmapped : '#' ∈ t.map fun c => if c = '~' then '.' else c :=
    List.mem_map.mpr ⟨'#', h, rfl⟩
  have hdropped : '#' ∈ dropSelectors false (t.map fun c => if c = '~' then '.' else c) :=
    mem_dropSelectors (by decide) (by decide) hmapped
  have hopened := mem_openGroups rfl (by decide) (by decide) hdropped
  rw [← Text.join_splitAt '.' (openGroups _)] at hopened
  obtain ⟨piece, hpiece, hmem⟩ : ∃ piece ∈ Text.splitAt '.' (openGroups (dropSelectors false
      (t.map fun c => if c = '~' then '.' else c))), '#' ∈ piece := by
    by_contra hno
    exact Text.not_mem_join (by decide) (fun p hp hmem => hno ⟨p, hp, hmem⟩) hopened
  have htrim : '#' ∈ Text.trim piece := Text.mem_trim rfl hmem
  refine ⟨Text.trim piece, List.mem_filter.mpr ⟨List.mem_map_of_mem hpiece, ?_⟩, htrim⟩
  simpa using List.ne_nil_of_mem htrim

/-! ## What a reference leads to -/

/-- Each name that leads down is that of a declaration. -/
theorem exists_nameAt_of_descend (h : descend root a names = .ok b) (hn : n ∈ names) :
    ∃ d ∈ root.walk, root.nameAt d = n := by
  induction names generalizing a with
  | nil => exact absurd hn List.not_mem_nil
  | cons name names ih =>
    unfold descend at h
    split at h
    · rename_i d hd
      rcases List.mem_cons.mp hn with rfl | hn
      · exact ⟨d, mem_walk_of_findExport? hd, (findExport?_eq_some hd).2⟩
      · exact ih h hn
    · cases h

/-- The names in a full name are those of declarations. -/
theorem exists_nameAt_of_mem_scopedName (hdot : c ≠ '.') (h : c ∈ root.scopedName a) :
    ∃ d ∈ root.walk, c ∈ root.nameAt d := by
  obtain ⟨name, hname, hc⟩ : ∃ name ∈ root.scopedNames a, c ∈ name := by
    by_contra hno
    exact Text.not_mem_join hdot (fun p hp hmem => hno ⟨p, hp, hmem⟩) h
  obtain ⟨i, hi, rfl⟩ := List.mem_map.mp hname
  obtain ⟨d, hd⟩ := exists_info?_of_mem_lineage (List.mem_filter.mp hi).1
  obtain ⟨e, he, rfl⟩ := Option.map_eq_some_iff.mp hd
  exact ⟨d, mem_walk_of_info? hd, by rwa [nameAt_of_get? he]⟩

theorem mem_qualify (scope : Text) (h : c ∈ name) : c ∈ qualify scope name := by
  unfold qualify
  split
  · exact h
  · exact List.mem_append_right _ (List.mem_cons_of_mem _ h)

/-- What a name is found to stand for has the characters of the name in its full name. -/
theorem mem_scopedName_of_lookupFrom
    (h : lookupFrom root (TypeMap.of root).value context? name = some a) (hc : c ∈ name) :
    c ∈ root.scopedName a := by
  unfold lookupFrom at h
  split at h
  · unfold resolve at h
    split at h
    · obtain ⟨full, hfull, hlookup⟩ := List.exists_of_findSome?_eq_some h
      obtain ⟨b, -, rfl⟩ := mem_candidates.mp hfull
      rw [(TypeMap.scopedName_of_lookup hlookup).2]
      exact mem_qualify _ hc
    · cases h
  · rwa [(TypeMap.scopedName_of_lookup h).2]

/-- A reference that leads somewhere has no characters in its names but those of names of
declarations. -/
theorem exists_nameAt_of_reference (hdot : c ≠ '.')
    (ha : reference root (TypeMap.of root).value context? t = .ok a)
    (hn : n ∈ namesOf root context? t) (hc : c ∈ n) : ∃ d ∈ root.walk, c ∈ root.nameAt d := by
  unfold namesOf at hn
  unfold reference at ha
  dsimp only at ha
  split at ha
  · cases ha
  · rename_i first rest hnames
    rw [hnames] at hn
    split at ha
    · rename_i s below hfound
      obtain ⟨k, -, -, hlookup, rfl, -⟩ := longestType?_eq_some hfound
      rw [← List.take_append_drop k (first :: rest), List.mem_append] at hn
      rcases hn with hn | hn
      · exact exists_nameAt_of_mem_scopedName hdot
          (mem_scopedName_of_lookupFrom hlookup (Text.mem_join _ hn hc))
      · obtain ⟨d, hd, rfl⟩ := exists_nameAt_of_descend ha hn
        exact ⟨d, hd, hc⟩
    · split at ha
      · rename_i s hfound
        obtain ⟨package, -, hexport⟩ := Option.bind_eq_some_iff.mp hfound
        rcases List.mem_cons.mp hn with rfl | hn
        · exact ⟨s, mem_walk_of_findExport? hexport, by rwa [(findExport?_eq_some hexport).2]⟩
        · obtain ⟨d, hd, rfl⟩ := exists_nameAt_of_descend ha hn
          exact ⟨d, hd, hc⟩
      · cases ha

/-- Behind the name of the package a reference leads where it leads alone, if it has no mark itself.
One with a mark leads nowhere there, if no declaration has such a name. -/
theorem reference_behind_package (hpackage : root.packageOf? context = some package)
    (hmark : '#' ∉ root.nameAt package) (hname : Recognised (root.nameAt package)) (r : Text) :
    ('#' ∉ r → ∀ a,
      reference root (TypeMap.of root).value (some context) (root.nameAt package ++ '#' :: r) =
          .ok a ↔
        reference root (TypeMap.of root).value (some context) r = .ok a) ∧
    ('#' ∈ r → (∀ d ∈ root.walk, '#' ∉ root.nameAt d) → ∃ message,
      reference root (TypeMap.of root).value (some context) (root.nameAt package ++ '#' :: r) =
        .error message) := by
  have hnames := namesOf_package hpackage hmark hname r
  constructor
  · intro hfree a
    refine reference_eq_ok_congr (hnames.trans ?_)
    rw [namesOf, segments_eq, dropPackage_of_not_mem _ fun h => hfree (Text.mem_of_mem_trim h)]
  · intro hmem hall
    cases hresult : reference root (TypeMap.of root).value (some context)
        (root.nameAt package ++ '#' :: r) with
    | error message => exact ⟨message, rfl⟩
    | ok a =>
      obtain ⟨n, hn, hc⟩ := exists_mem_listedNames (Text.mem_trim (by decide) hmem)
      obtain ⟨d, hd, hc⟩ := exists_nameAt_of_reference (by decide) hresult (hnames ▸ hn) hc
      exact absurd hc (hall d hd)

/-- A package with a class. -/
def farm : Declaration :=
  ⟨.plain .package "old-farm", [⟨.plain .entryPoint [], [
    ⟨.plain .classType "Dog", [⟨.plain .method "bark", []⟩]⟩]⟩]⟩

theorem reference_behind_farm :
    farm.packageOf? [0, 0] = some [] ∧ '#' ∉ farm.nameAt [] ∧ Recognised (farm.nameAt []) ∧
    reference farm (TypeMap.of farm).value (some [0, 0]) "Dog.(bark:1)" = .ok [0, 0, 0] ∧
    (('#' ∉ ("Dog.(bark:1)" : Text) → ∀ a,
      reference farm (TypeMap.of farm).value (some [0, 0])
        (farm.nameAt [] ++ '#' :: ("Dog.(bark:1)" : Text)) = .ok a ↔
        reference farm (TypeMap.of farm).value (some [0, 0]) "Dog.(bark:1)" = .ok a) ∧
    ('#' ∈ ("Dog.(bark:1)" : Text) → (∀ d ∈ farm.walk, '#' ∉ farm.nameAt d) → ∃ message,
      reference farm (TypeMap.of farm).value (some [0, 0])
        (farm.nameAt [] ++ '#' :: ("Dog.(bark:1)" : Text)) = .error message)) := by
  have hmark : '#' ∉ farm.nameAt [] := by decide
  have hname : Recognised (farm.nameAt []) := .inl rfl
  exact ⟨rfl, hmark, hname, by decide +kernel, reference_behind_package rfl hmark hname _⟩

/-- The mark in front of a member leads to it, but not behind the name of the package. -/
theorem reference_behind_farm_marked :
    farm.packageOf? [0, 0] = some [] ∧ farm.nameAt [] = "old-farm" ∧
    reference farm (TypeMap.of farm).value (some [0, 0]) "Dog#bark" = .ok [0, 0, 0] ∧
    reference farm (TypeMap.of farm).value (some [0, 0]) "old-farm#Dog#bark" =
      .error "The package does not have an export 'Dog#bark'" := by
  decide +kernel

end ApiReference.Scope
