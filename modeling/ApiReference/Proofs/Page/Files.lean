import ApiReference.Proofs.Page.Documented
import ApiReference.Proofs.Text.Lower

/-!
# The files of pages

Every declaration on the way to a page adds two steps to the path of the page: the
folder of its kind and its own name, in lower case (`steps_of_listed`).  Without slashes
in the names these steps can be read off the path again (`splitAt_stemOf`), from the last
one to the first.  So two pages have the same path only if they come from members of one
container that share a folder and a name in it (`eq_of_stemOf_eq`).
-/

namespace ApiReference.Page

open Declaration Text

variable {root : Declaration} {a b : Address} {i : Info} {lineage : List Info}
variable {kind : Declaration.Kind}

/-! ## Steps of a path -/

/-- What the page of a declaration is called in its folder, before the change to lower case. -/
def fileName (i : Info) : Text := i.name ++ overloadMark '_' i

/-- The steps that a declaration adds to a path, before the change to lower case. -/
def stepsFor (i : Info) : List Text := (folderName? i.kind).toList ++ [fileName i]

def stepsAlong (lineage : List Info) : List Text :=
  (lineage.filter fun i => isPathKind i.kind).flatMap stepsFor

theorem stepsAlong_append (lineage lineage' : List Info) :
    stepsAlong (lineage ++ lineage') = stepsAlong lineage ++ stepsAlong lineage' := by
  rw [stepsAlong, List.filter_append, List.flatMap_append]
  rfl

/-- Packages and entry points add no steps. -/
theorem stepsAlong_of_isRoot (h : ∀ i ∈ lineage, i.kind.isRoot = true) :
    stepsAlong lineage = [] := by
  have hnone : lineage.filter (fun i => isPathKind i.kind) = [] := by
    rw [List.filter_eq_nil_iff]
    intro i hi
    simp [isPathKind, h i hi]
  rw [stepsAlong, hnone, List.flatMap_nil]

theorem segmentOf_eq (i : Info) : segmentOf i = join ['/'] (stepsFor i) := by
  unfold segmentOf stepsFor
  cases folderName? i.kind with
  | none => exact (join_singleton _ _).symm
  | some folder =>
    apply Eq.symm
    show join ['/'] (folder :: [fileName i]) = folder ++ '/' :: fileName i
    rw [join_cons _ _ (List.cons_ne_nil _ _), join_singleton, List.append_assoc,
      List.singleton_append]

/-- Joining joined parts is joining all of them. -/
theorem join_map_join {f : Info → List Text} (hf : ∀ i, f i ≠ []) (s : Text) :
    join s (lineage.map fun i => join s (f i)) = join s (lineage.flatMap f) := by
  induction lineage with
  | nil => rfl
  | cons i lineage ih =>
    cases lineage with
    | nil => rw [List.map_singleton, List.flatMap_singleton, join_singleton]
    | cons j lineage =>
      have hflat : (j :: lineage).flatMap f ≠ [] := by simp [hf j]
      rw [List.map_cons, join_cons _ _ (by simp), ih, ← join_append s (hf i) hflat]
      rfl

theorem join_segments (lineage : List Info) :
    join ['/'] ((lineage.filter fun i => isPathKind i.kind).map segmentOf) =
      join ['/'] (stepsAlong lineage) := by
  rw [funext segmentOf_eq, join_map_join fun i => by simp [stepsFor]]
  rfl

/-- The steps of a path are found between its slashes, in lower case. -/
theorem splitAt_stemOf (hsteps : ∀ step ∈ stepsAlong lineage, '/' ∉ step)
    (htwo : 2 ≤ (stepsAlong lineage).length) :
    splitAt '/' (stemOf lineage) = (stepsAlong lineage).map lower := by
  have hne : stepsAlong lineage ≠ [] := by
    intro hnil
    rw [hnil] at htwo
    cases htwo
  have hsplit := splitAt_lower_join hsteps hne
  rw [← hsplit, stemOf, join_segments]
  apply congrArg
  apply if_neg
  intro hempty
  rw [List.isEmpty_iff.mp hempty] at hsplit
  have hlength := congrArg List.length hsplit
  rw [List.length_map] at hlength
  have hone : (splitAt '/' []).length = 1 := rfl
  omega

/-! ## Names and folders -/

/-- No name that makes a step of a path has a slash in it, as no identifier has. -/
def SlashFree (root : Declaration) : Prop :=
  ∀ a ∈ root.walk, ∀ i ∈ root.info? a, isPathKind i.kind = true → '/' ∉ i.name

instance SlashFree.decidable (root : Declaration) : Decidable (SlashFree root) :=
  inferInstanceAs (Decidable (∀ a ∈ root.walk, ∀ i ∈ root.info? a, _ → _))

/-- The mark of an overload is a number behind a sign. -/
theorem isDigit_of_mem_overloadMark {separator sign : Char} (h : sign ∈ overloadMark separator i) :
    sign = separator ∨ sign.isDigit = true := by
  unfold overloadMark at h
  split at h
  · rename_i hmark
    rw [Bool.and_eq_true, decide_eq_true_eq] at hmark
    obtain ⟨n, hn⟩ := Int.eq_ofNat_of_zero_le (by omega : 0 ≤ i.overloadIndex)
    rw [hn] at h
    exact (List.mem_cons.mp h).imp_right (Nat.isDigit_of_mem_toDigits (by omega) (by omega))
  · cases h

/-- The number in the name of a file brings no sign into it but the underscore. -/
theorem not_mem_fileName {sign : Char} (hsign : sign.toNat < 48) (h : sign ∉ i.name) :
    sign ∉ fileName i := by
  rw [fileName, List.mem_append, not_or]
  refine ⟨h, fun hmem => ?_⟩
  rcases isDigit_of_mem_overloadMark hmem with rfl | hdigit
  · exact absurd hsign (by decide)
  · rw [Char.isDigit, Bool.and_eq_true, decide_eq_true_eq, ge_iff_le, UInt32.le_iff_toNat_le]
      at hdigit
    have hcode : sign.toNat = sign.val.toNat := rfl
    have hzero : '0'.val.toNat = 48 := rfl
    omega

theorem folderName?_cases {folder : Text} (h : folderName? kind = some folder) :
    folder ∈ ["classes".toList, "enums", "interfaces", "namespaces", "types", "variables"] := by
  cases kind <;> cases h <;> decide

/-- Whatever is listed has a folder, and its name makes a step of a path. -/
theorem exists_folder_of_listed (h : listedKinds.contains kind = true) :
    ∃ folder, folderName? kind = some folder ∧ '/' ∉ folder ∧ lower folder = folder ∧
      isPathKind kind = true := by
  have hkinds : ∀ kind ∈ listedKinds, (folderName? kind).any (fun folder =>
      !folder.contains '/' && lower folder == folder && isPathKind kind) = true := by
    decide
  obtain ⟨folder, hfolder, hall⟩ :=
    (Option.any_eq_true _ _).mp (hkinds kind (List.contains_iff_mem.mp h))
  simp only [Bool.and_eq_true, Bool.not_eq_true', beq_iff_eq] at hall
  rcases hall with ⟨⟨hslash, hlower⟩, hpath⟩
  exact ⟨folder, hfolder, by simpa using hslash, hlower, hpath⟩

/-! ## Pages -/

/-- The steps of a page: those of the page it is listed on, its folder and its name. -/
theorem steps_of_listed (hb : b ∈ root.exportsAt a)
    (hkind : (root.kind? b).any listedKinds.contains = true) :
    ∃ i folder, root.info? b = some i ∧ isPathKind i.kind = true ∧
      folderName? i.kind = some folder ∧ '/' ∉ folder ∧ lower folder = folder ∧
      stepsAlong (root.lineage b) = stepsAlong (root.lineage a) ++ [folder, fileName i] := by
  obtain ⟨m, between, hm, hentry, hlineage⟩ := lineage_of_mem_exportsAt hb
  rw [kind?_of_get? hm, Option.any_some] at hkind
  obtain ⟨folder, hfolder, hslash, hlower, hpath⟩ := exists_folder_of_listed hkind
  refine ⟨m.toInfo, folder, info?_of_get? hm, hpath, hfolder, hslash, hlower, ?_⟩
  have hbetween : stepsAlong between = [] := by
    apply stepsAlong_of_isRoot
    intro i hi
    rw [hentry i hi]
    rfl
  have hlast : stepsAlong [m.toInfo] = [folder, fileName m.toInfo] := by
    rw [stepsAlong, List.filter_singleton, hpath]
    show stepsFor m.toInfo ++ [] = _
    rw [List.append_nil, stepsFor, hfolder]
    rfl
  rw [hlineage, stepsAlong_append, stepsAlong_append, hbetween, hlast, List.append_nil]

theorem steps_of_home (hroot : root.kind = .package) : stepsAlong (root.lineage []) = [] := by
  apply stepsAlong_of_isRoot
  intro i hi
  rw [List.mem_singleton.mp hi]
  show root.kind.isRoot = true
  rw [hroot]
  rfl

/-- What holds of folders and of the names of files holds of all steps. -/
theorem HasPage.forall_step {P : Text → Prop} (hroot : root.kind = .package)
    (hfolders : ∀ kind folder, folderName? kind = some folder → P folder)
    (hnames : ∀ a ∈ root.walk, ∀ i ∈ root.info? a, isPathKind i.kind = true → P (fileName i))
    (h : HasPage root a) : ∀ step ∈ stepsAlong (root.lineage a), P step := by
  induction h with
  | home =>
    rw [steps_of_home hroot]
    exact List.forall_mem_nil _
  | @listed a b _ _ hb hkind ih =>
    obtain ⟨i, folder, hi, hpath, hfolder, -, -, hsteps⟩ := steps_of_listed hb hkind
    have hname := hnames b (mem_walk_of_info? hi) i hi hpath
    rw [hsteps]
    intro step hstep
    rcases List.mem_append.mp hstep with hstep | hstep
    · exact ih step hstep
    · rcases List.mem_pair.mp hstep with rfl | rfl
      · exact hfolders i.kind _ hfolder
      · exact hname

/-- Without slashes in the names there are none in the steps. -/
theorem HasPage.slash_not_mem (hroot : root.kind = .package) (hnames : SlashFree root)
    (h : HasPage root a) : ∀ step ∈ stepsAlong (root.lineage a), '/' ∉ step := by
  refine h.forall_step hroot (fun kind folder hfolder => ?_) fun b hb i hi hpath => ?_
  · have hall : ∀ folder ∈ ["classes".toList, "enums", "interfaces", "namespaces", "types",
        "variables"], folder.contains '/' = false := by
      decide
    have hslash := hall folder (folderName?_cases hfolder)
    simpa using hslash
  · exact not_mem_fileName (by decide) (hnames b hb i hi hpath)

/-- The steps of every page but that of the package can be read off its path. -/
theorem HasPage.splitAt_stemOf (hroot : root.kind = .package) (hnames : SlashFree root)
    (h : HasPage root a) : a = [] ∨ 2 ≤ (stepsAlong (root.lineage a)).length ∧
      splitAt '/' (stemOf (root.lineage a)) = (stepsAlong (root.lineage a)).map lower := by
  have hslash := h.slash_not_mem hroot hnames
  cases h with
  | home => exact .inl rfl
  | listed _ _ hb hkind =>
    obtain ⟨i, folder, -, -, -, -, -, hsteps⟩ := steps_of_listed hb hkind
    have htwo : 2 ≤ (stepsAlong (root.lineage a)).length := by
      rw [hsteps, List.length_append]
      exact Nat.le_add_left 2 _
    exact .inr ⟨htwo, Page.splitAt_stemOf hslash htwo⟩

theorem splitAt_stemOf_home (hroot : root.kind = .package) :
    splitAt '/' (stemOf (root.lineage [])) = ["index".toList] := by
  rw [stemOf, join_segments, steps_of_home hroot]
  rfl

/-! ## Distinct files -/

/-- Declarations of one folder whose names in it are told apart by the case of letters at most. -/
def SameFile (i j : Info) : Prop :=
  (folderName? i.kind).isSome = true ∧ folderName? i.kind = folderName? j.kind ∧
    lower (fileName i) = lower (fileName j)

instance SameFile.decidable (i j : Info) : Decidable (SameFile i j) :=
  inferInstanceAs (Decidable (_ ∧ _ ∧ _))

/-- No two of some declarations are alike. -/
def Apart (root : Declaration) (alike : Info → Info → Prop) (as : List Address) : Prop :=
  ∀ b ∈ as, ∀ c ∈ as, ∀ i ∈ root.info? b, ∀ j ∈ root.info? c, alike i j → b = c

instance Apart.decidable (root : Declaration) (alike : Info → Info → Prop)
    [∀ i j, Decidable (alike i j)] (as : List Address) : Decidable (Apart root alike as) :=
  inferInstanceAs (Decidable (∀ b ∈ as, ∀ c ∈ as, ∀ i ∈ root.info? b, ∀ j ∈ root.info? c, _ → _))

/-- No two declarations that a package or namespace exports share a file. -/
def FilesApart (root : Declaration) : Prop :=
  ∀ a ∈ root.walk, (root.kind? a).any isContainer = true → Apart root SameFile (root.exportsAt a)

instance FilesApart.decidable (root : Declaration) : Decidable (FilesApart root) :=
  inferInstanceAs (Decidable (∀ a ∈ root.walk, _ → Apart root SameFile (root.exportsAt a)))

/-- Pages whose steps differ in the case of letters at most are the same one. -/
theorem HasPage.eq_of_steps (hroot : root.kind = .package) (hfiles : FilesApart root)
    (ha : HasPage root a) (hb : HasPage root b)
    (h : (stepsAlong (root.lineage a)).map lower = (stepsAlong (root.lineage b)).map lower) :
    a = b := by
  induction ha generalizing b with
  | home =>
    cases hb with
    | home => rfl
    | listed _ _ hb hkind =>
      obtain ⟨j, folder, -, -, -, -, -, hsteps⟩ := steps_of_listed hb hkind
      rw [steps_of_home hroot, hsteps] at h
      simp at h
  | @listed a₀ a _ hcontainer ha hkind ih =>
    obtain ⟨i, folder, hi, -, hfolder, -, hlower, hsteps⟩ := steps_of_listed ha hkind
    cases hb with
    | home =>
      rw [steps_of_home hroot, hsteps] at h
      simp at h
    | @listed b₀ _ hb₀ _ hb hkind' =>
      obtain ⟨j, folder', hj, -, hfolder', -, hlower', hsteps'⟩ := steps_of_listed hb hkind'
      rw [hsteps, hsteps', List.map_append, List.map_append] at h
      obtain ⟨hfirst, hlast⟩ := List.append_inj' h rfl
      obtain rfl := ih hb₀ hfirst
      simp only [List.map_cons, List.map_nil, List.cons.injEq, and_true, hlower, hlower'] at hlast
      have hwalk : a₀ ∈ root.walk := by
        obtain ⟨k, hk, -⟩ := (Option.any_eq_true _ _).mp hcontainer
        exact mem_walk_of_kind? hk
      refine hfiles a₀ hwalk hcontainer a ha b hb i hi j hj ⟨?_, ?_, hlast.2⟩
      · rw [hfolder]
        rfl
      · rw [hfolder, hfolder', hlast.1]

/-- The path of one step is that of the package. -/
theorem HasPage.eq_home (hroot : root.kind = .package) (hnames : SlashFree root)
    (h : HasPage root a) (hstem : splitAt '/' (stemOf (root.lineage a)) = ["index".toList]) :
    a = [] := by
  rcases h.splitAt_stemOf hroot hnames with hnil | ⟨htwo, hsteps⟩
  · exact hnil
  · rw [hsteps] at hstem
    have hlength := congrArg List.length hstem
    rw [List.length_map, List.length_singleton] at hlength
    omega

/-- The path of a page in front of its extension tells which declaration the page is of. -/
theorem HasPage.eq_of_stemOf (hroot : root.kind = .package) (hnames : SlashFree root)
    (hfiles : FilesApart root) (ha : HasPage root a) (hb : HasPage root b)
    (h : stemOf (root.lineage a) = stemOf (root.lineage b)) : a = b := by
  have hsplit := congrArg (splitAt '/') h
  have hhome := splitAt_stemOf_home hroot
  rcases ha.splitAt_stemOf hroot hnames with rfl | ⟨-, hsteps⟩
  · exact (hb.eq_home hroot hnames (hsplit.symm.trans hhome)).symm
  · rcases hb.splitAt_stemOf hroot hnames with rfl | ⟨-, hsteps'⟩
    · exact ha.eq_home hroot hnames (hsplit.trans hhome)
    · apply ha.eq_of_steps hroot hfiles hb
      rw [← hsteps, ← hsteps', hsplit]

end ApiReference.Page
