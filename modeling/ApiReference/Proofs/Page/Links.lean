import ApiReference.Page.Router
import ApiReference.Proofs.Page.Follow

/-!
# Links lead where they are meant to

A link to a declaration is the way from the folder of a page to the page of the
declaration, and behind a `#` the place on it.  Whoever follows it arrives at that
page and that place, wherever the two pages lie, as long as the pieces of their
paths are plain.
-/

namespace ApiReference.Page

open Declaration

variable {parts : List Text} {page path link : Text}

/-! ## Paths made of names -/

/-- A joined path ends with the end of its last name. -/
theorem exists_getLast?_join (h : ∀ p ∈ parts, p ≠ [] ∧ '/' ∉ p) (hne : parts ≠ []) :
    ∃ c, (Text.join ['/'] parts).getLast? = some c ∧ c ≠ '/' := by
  induction parts using List.reverseRecOn with
  | nil => exact absurd rfl hne
  | append_singleton parts last _ =>
    obtain ⟨hlast, hslash⟩ := h last (by simp)
    refine ⟨last.getLast hlast, ?_, fun hc => hslash (hc ▸ List.getLast_mem hlast)⟩
    by_cases hparts : parts = []
    · rw [hparts, List.nil_append, Text.join_singleton, List.getLast?_eq_some_getLast hlast]
    · rw [Text.join_append_singleton _ _ hparts, List.getLast?_append_of_ne_nil _ hlast,
        List.getLast?_eq_some_getLast hlast]

/-- A joined path starts with the start of its first name. -/
theorem exists_head?_join (h : ∀ p ∈ parts, p ≠ [] ∧ '/' ∉ p) (hne : parts ≠ []) :
    ∃ c, (Text.join ['/'] parts).head? = some c ∧ c ≠ '/' := by
  cases parts with
  | nil => exact absurd rfl hne
  | cons first parts =>
    obtain ⟨hfirst, hslash⟩ := h first (List.mem_cons_self ..)
    refine ⟨first.head hfirst, ?_, fun hc => hslash (hc ▸ List.head_mem hfirst)⟩
    by_cases hparts : parts = []
    · rw [hparts, Text.join_singleton, List.head?_eq_some_head hfirst]
    · rw [Text.join_cons _ _ hparts, List.append_assoc, List.head?_append_of_ne_nil _ hfirst,
        List.head?_eq_some_head hfirst]

theorem rdropWhile_append_of_forall {p : Char → Bool} {s t : Text} (h : ∀ c ∈ t, p c) :
    (s ++ t).rdropWhile p = s.rdropWhile p := by
  rw [List.rdropWhile, List.reverse_append, List.dropWhile_append_of_pos]
  · rfl
  · exact fun c hc => h c (List.mem_reverse.mp hc)

/-- The directory of a file has all names of its path but the last. -/
theorem directory_join (h : ∀ p ∈ parts, p ≠ [] ∧ '/' ∉ p) :
    directory (Text.join ['/'] parts) = Text.join ['/'] parts.dropLast := by
  induction parts using List.reverseRecOn with
  | nil => rfl
  | append_singleton parts last _ =>
    have hlast : ∀ c ∈ last, decide (c ≠ '/') = true := fun c hc =>
      decide_eq_true fun heq => (h last (by simp)).2 (heq ▸ hc)
    rw [List.dropLast_concat]
    by_cases hparts : parts = []
    · have hhead : last.rdropWhile (· ≠ '/') = [] := List.rdropWhile_eq_nil_iff.mpr hlast
      rw [hparts, List.nil_append, Text.join_singleton, directory, hhead]
      rfl
    · obtain ⟨c, hc, hslash⟩ :=
        exists_getLast?_join (fun p hp => h p (List.mem_append_left _ hp)) hparts
      have hhead : (Text.join ['/'] parts ++ ['/'] ++ last).rdropWhile (· ≠ '/') =
          Text.join ['/'] parts ++ ['/'] := by
        rw [rdropWhile_append_of_forall hlast, List.rdropWhile_concat_neg _ _ _ (by simp)]
      have hall : (Text.join ['/'] parts ++ ['/']).all (· = '/') = false := by
        rw [List.all_eq_false]
        exact ⟨c, List.mem_append_left _ (List.mem_of_getLast? hc), by simpa using hslash⟩
      have hkeep : (Text.join ['/'] parts).rdropWhile (· = '/') = Text.join ['/'] parts := by
        refine List.rdropWhile_eq_self_iff.mpr fun hl => ?_
        rw [List.getLast?_eq_some_getLast hl, Option.some.injEq] at hc
        rw [hc]
        simpa using hslash
      rw [Text.join_append_singleton _ _ hparts, directory, hhead, hall,
        List.rdropWhile_concat_pos _ _ _ (by simp), hkeep]
      rfl

/-- The pieces of a joined path are those of both parts. -/
theorem splitAt_joinPaths (h : ∀ p ∈ parts, p ≠ [] ∧ '/' ∉ p) (hlink : link.head? ≠ some '/') :
    Text.splitAt '/' (joinPaths (Text.join ['/'] parts) link) = parts ++ Text.splitAt '/' link := by
  rw [joinPaths, if_neg hlink]
  by_cases hparts : parts = []
  · simp [hparts]
  · obtain ⟨c, hc, hslash⟩ := exists_getLast?_join h hparts
    have hne : ¬ (Text.join ['/'] parts = [] ∨ (Text.join ['/'] parts).getLast? = some '/') := by
      rintro (hnil | hlast)
      · rw [hnil] at hc
        exact absurd hc (by simp)
      · exact hslash (Option.some.inj (hc.symm.trans hlast))
    rw [if_neg hne, Text.splitAt_append_cons, Text.splitAt_join (fun p hp => (h p hp).2) hparts]

theorem head?_joinPaths (h : ∀ p ∈ parts, p ≠ [] ∧ '/' ∉ p) (hlink : link.head? ≠ some '/') :
    (joinPaths (Text.join ['/'] parts) link).head? ≠ some '/' := by
  rw [joinPaths, if_neg hlink]
  by_cases hparts : parts = []
  · simpa [hparts] using hlink
  · obtain ⟨c, hc, hslash⟩ := exists_head?_join h hparts
    have hne : Text.join ['/'] parts ≠ [] := fun hnil => by simp [hnil] at hc
    split <;> rw [List.head?_append_of_ne_nil _ hne, hc] <;> simpa using hslash

/-- A path that does not start at the root is made of the steps that are left. -/
theorem normalise_of_head? (h : path.head? ≠ some '/')
    (hne : Text.join ['/'] ((Text.splitAt '/' path).foldl (resolveStep false) []) ≠ []) :
    normalise path = Text.join ['/'] ((Text.splitAt '/' path).foldl (resolveStep false) []) := by
  have hrooted : decide (path.head? = some '/') = false := decide_eq_false h
  have hslashes : leadingSlashes path = 0 := by
    cases path with
    | nil => rfl
    | cons c path =>
      have hc : ('/' == c) = false := by
        rw [beq_eq_false_iff_ne]
        exact fun heq => h (heq ▸ rfl)
      simp [leadingSlashes, List.isPrefixOf, hc]
  rw [normalise, hrooted, hslashes, List.replicate_zero, List.nil_append, if_neg hne]

/-! ## The way to a page -/

theorem starts_with_dots (path : Text) :
    ['.', '/'] <+: dotted path ∨ ['.', '.', '/'] <+: dotted path := by
  by_cases hdots : (List.isPrefixOf ['.', '/'] path || List.isPrefixOf ['.', '.', '/'] path) = true
  · rw [dotted, if_pos hdots]
    rw [Bool.or_eq_true, List.isPrefixOf_iff_prefix, List.isPrefixOf_iff_prefix] at hdots
    exact hdots
  · rw [dotted, if_neg hdots]
    exact Or.inl ⟨path, rfl⟩

/-- A path that starts with dots starts with no slash. -/
theorem head?_dotted (path : Text) : (dotted path).head? ≠ some '/' := by
  rcases starts_with_dots path with ⟨rest, h⟩ | ⟨rest, h⟩ <;> simp [← h]

/-- The dot in front of a path leads nowhere. -/
theorem foldl_splitAt_dotted (rooted : Bool) (steps : List Text) (path : Text) :
    (Text.splitAt '/' (dotted path)).foldl (resolveStep rooted) steps =
      (Text.splitAt '/' path).foldl (resolveStep rooted) steps := by
  rw [dotted]
  split
  · rfl
  · have hsplit : Text.splitAt '/' ('.' :: '/' :: path) = ['.'] :: Text.splitAt '/' path :=
      Text.splitAt_append_cons '/' ['.'] path
    rw [hsplit, List.foldl_cons, resolveStep_dot]

theorem mem_stepsBetween {start stop : List Text} {piece : Text}
    (h : piece ∈ stepsBetween start stop) : piece = ['.', '.'] ∨ piece ∈ stop := by
  fun_induction stepsBetween start stop with
  | case1 start b stop ih => exact (ih h).imp_right (List.mem_cons_of_mem _)
  | case2 a start b stop _ =>
    exact (List.mem_append.mp h).imp_left List.eq_of_mem_replicate
  | case3 start stop _ =>
    exact (List.mem_append.mp h).imp_left List.eq_of_mem_replicate

/-- A character of a relative path is a mark of it or one of the path it leads to. -/
theorem not_mem_relativePath {c : Char} {folder : List Text} (hdot : c ≠ '.') (hslash : c ≠ '/')
    (h : ∀ piece ∈ stepsOf path, c ∉ piece) : c ∉ relativePath folder path := by
  rw [relativePath]
  split
  · simpa using hdot
  · refine Text.not_mem_join hslash fun piece hp => ?_
    rcases mem_stepsBetween hp with rfl | hmem
    · simpa using hdot
    · exact h piece hmem

/-- The way from a folder to a page, read in that folder, leads to the page. -/
theorem foldl_relativePath (rooted : Bool) {folder : List Text}
    (hfolder : ∀ piece ∈ folder, PlainPiece piece) (hpath : PlainPath path) :
    (Text.splitAt '/' (relativePath folder path)).foldl (resolveStep rooted) folder =
      Text.splitAt '/' path := by
  have hway : (stepsBetween folder (stepsOf path)).foldl (resolveStep rooted) folder =
      Text.splitAt '/' path := by
    rw [hpath.stepsOf]
    exact foldl_stepsBetween rooted [] hfolder hpath
  have hslash : ∀ piece ∈ stepsBetween folder (stepsOf path), '/' ∉ piece := by
    intro piece hp
    rcases mem_stepsBetween hp with rfl | hmem
    · decide
    · exact Text.not_mem_of_mem_splitAt (hpath.stepsOf ▸ hmem)
  rw [relativePath]
  split
  · rename_i hnil
    rw [hnil] at hway
    exact hway
  · rename_i hne
    rw [Text.splitAt_join hslash hne, hway]

theorem PlainPath.names (h : PlainPath path) : ∀ p ∈ Text.splitAt '/' path, p ≠ [] ∧ '/' ∉ p :=
  fun p hp => ⟨(h p hp).1, Text.not_mem_of_mem_splitAt hp⟩

theorem PlainPath.ne_nil (h : PlainPath path) : path ≠ [] := by
  rintro rfl
  exact (h [] (List.mem_singleton_self [])).1 rfl

/-- Following the way from a page to a path arrives at exactly that path. -/
theorem normalise_joinPaths_relativePath (hpage : PlainPath page) (hpath : PlainPath path) :
    normalise (joinPaths (directory page) (dotted (relativePath (folderOf page) path))) = path := by
  have hdirectory := directory_join hpage.names
  rw [Text.join_splitAt] at hdirectory
  have hplain : ∀ p ∈ (Text.splitAt '/' page).dropLast, PlainPiece p := fun p hp =>
    hpage p ((List.dropLast_sublist _).subset hp)
  have hnames : ∀ p ∈ (Text.splitAt '/' page).dropLast, p ≠ [] ∧ '/' ∉ p := fun p hp =>
    hpage.names p ((List.dropLast_sublist _).subset hp)
  have hlink := head?_dotted (relativePath (folderOf page) path)
  have hsteps : (Text.splitAt '/' (joinPaths (directory page)
      (dotted (relativePath (folderOf page) path)))).foldl (resolveStep false) [] =
      Text.splitAt '/' path := by
    rw [hdirectory, splitAt_joinPaths hnames hlink, List.foldl_append,
      foldl_resolveStep_of_plain hplain, List.nil_append, foldl_splitAt_dotted, hpage.folderOf,
      foldl_relativePath false hplain hpath]
  have hhead : (joinPaths (directory page)
      (dotted (relativePath (folderOf page) path))).head? ≠ some '/' := by
    rw [hdirectory]
    exact head?_joinPaths hnames hlink
  rw [normalise_of_head? hhead, hsteps, Text.join_splitAt]
  rw [hsteps, Text.join_splitAt]
  exact hpath.ne_nil

/-! ## Links -/

theorem anchorOf?_ne_nil (i : Info) : anchorOf? i ≠ some [] := by
  intro h
  obtain ⟨mark, hmark, hnil⟩ := Option.map_eq_some_iff.mp h
  simp only [List.append_eq_nil_iff] at hnil
  obtain ⟨⟨⟨_, rfl⟩, _⟩, _⟩ := hnil
  unfold categoryMark? at hmark
  split at hmark
  · exact absurd hmark (by decide)
  · split at hmark
    · split at hmark <;> exact absurd hmark (by decide)
    · exact absurd hmark (by decide)

/-- No place on a page has an empty anchor. -/
theorem anchor?_locationOf_ne_nil (r : Router) (lineage : List Info) :
    (r.locationOf lineage).anchor? ≠ some [] := by
  intro h
  obtain ⟨i, _, hi⟩ := List.mem_filterMap.mp (List.mem_of_getLast? h)
  exact anchorOf?_ne_nil i hi

/-- A link is cut into the path and the anchor it was made of. -/
theorem cut_href {l : Location} (hpath : '#' ∉ l.path) (hanchor : l.anchor? ≠ some []) :
    Text.cut '#' l.href = (l.path, l.anchor?) := by
  obtain ⟨path, anchor?⟩ := l
  match anchor? with
  | none => exact Text.cut_of_not_mem hpath
  | some [] => exact absurd rfl hanchor
  | some (c :: anchor) => exact Text.cut_append_cons hpath

theorem path_prefix_href (l : Location) : l.path <+: l.href := by
  rw [Location.href]
  split
  · exact List.prefix_rfl
  · exact List.prefix_rfl
  · exact List.prefix_append _ _

/-- A link from the page of one declaration to another starts with dots.  Cut at its first `#` and
followed from that page, it leads to exactly the page of the other and the place on it. -/
theorem linkFrom_leads_to (r : Router) (root : Declaration) (origin target : Address)
    (horigin : PlainPath (r.locate root origin).path)
    (htarget : PlainPath (r.locate root target).path) :
    let page := (r.locate root origin).path
    let link := r.linkFrom root page target
    normalise (joinPaths (directory page) (Text.cut '#' link).1) = (r.locate root target).path ∧
    (Text.cut '#' link).2 = (r.locate root target).anchor? ∧
    (['.', '/'] <+: link ∨ ['.', '.', '/'] <+: link) := by
  intro page link
  have hmark : '#' ∉ dotted (relativePath (folderOf page) (r.locate root target).path) := by
    have hway : '#' ∉ relativePath (folderOf page) (r.locate root target).path := by
      refine not_mem_relativePath (by decide) (by decide) fun piece hp => ?_
      exact (htarget piece (htarget.stepsOf ▸ hp)).2.2.2
    rw [dotted]
    split
    · exact hway
    · simpa using hway
  have hcut : Text.cut '#' link = (dotted (relativePath (folderOf page)
      (r.locate root target).path), (r.locate root target).anchor?) :=
    cut_href hmark (anchor?_locationOf_ne_nil r (root.lineage target))
  have hstart : dotted (relativePath (folderOf page) (r.locate root target).path) <+: link :=
    path_prefix_href ⟨_, (r.locate root target).anchor?⟩
  rw [hcut]
  refine ⟨normalise_joinPaths_relativePath horigin htarget, rfl, ?_⟩
  exact (starts_with_dots _).imp (·.trans hstart) (·.trans hstart)

/-- A package with a class in a namespace, and another class with a method. -/
def zoo : Declaration :=
  ⟨.plain .package "zoo", [⟨.plain .entryPoint "", [
    ⟨.plain .nameSpace "Wild", [⟨.plain .classType "Cat", []⟩]⟩,
    ⟨.plain .classType "Dog", [⟨.plain .method "bark", []⟩]⟩]⟩]⟩

theorem linkFrom_leads_from_cat_to_bark :
    PlainPath ((Router.mk ".md").locate zoo [0, 0, 0]).path ∧
    PlainPath ((Router.mk ".md").locate zoo [0, 1, 0]).path ∧
    (Router.mk ".md").linkFrom zoo ((Router.mk ".md").locate zoo [0, 0, 0]).path [0, 1, 0] =
      "../../../classes/dog.md#bark-method" ∧
    normalise (joinPaths (directory ((Router.mk ".md").locate zoo [0, 0, 0]).path)
      (Text.cut '#' ((Router.mk ".md").linkFrom zoo
        ((Router.mk ".md").locate zoo [0, 0, 0]).path [0, 1, 0])).1) =
      ((Router.mk ".md").locate zoo [0, 1, 0]).path ∧
    (Text.cut '#' ((Router.mk ".md").linkFrom zoo
      ((Router.mk ".md").locate zoo [0, 0, 0]).path [0, 1, 0])).2 =
      ((Router.mk ".md").locate zoo [0, 1, 0]).anchor? :=
  have h := linkFrom_leads_to ⟨".md"⟩ zoo [0, 0, 0] [0, 1, 0] (by decide) (by decide)
  ⟨by decide, by decide, by decide, h.1, h.2.1⟩

end ApiReference.Page
