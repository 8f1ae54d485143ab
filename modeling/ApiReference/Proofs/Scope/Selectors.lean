import ApiReference.Proofs.Scope.Packages

/-!
# Names with selectors

A name in a reference may have a selector, which tells overloads and kinds apart: `s()`,
`s:w`, `s(:n)` and `(s:w)` are read as `s`.  Reading takes two scans of the whole text,
and both go over one name after the other (`scan_join`): the first drops the words behind
colons, the second opens the parentheses.  A number that stands in parentheses without a
colon is opened as well, so `s(n)` is read as the name `sn` (`Spelled.read`).
-/

namespace ApiReference.Scope

open Declaration

variable {root : Declaration} {context? : Option Address} {types : TypeMap}
variable {g t u w : Text} {c : Char}

/-! ## Spellings -/

/-- A word, as it stands behind the colon of a selector. -/
structure Word where
  text : Text
  ne_nil : text ≠ []
  isWord : text.all Text.isWord = true

/-- A number in decimal digits. -/
structure Numeral where
  text : Text
  ne_nil : text ≠ []
  isDigit : text.all Char.isDigit = true

def Numeral.toWord (n : Numeral) : Word where
  text := n.text
  ne_nil := n.ne_nil
  isWord := List.all_eq_true.mpr fun c hc =>
    isWord_of_isAlphanum (by simp [Char.isAlphanum, List.all_eq_true.mp n.isDigit c hc])

/-- The ways to select one of the declarations that have a name. -/
inductive Selector where
  | none
  | call
  | word (w : Word)
  | number (n : Numeral)
  | overload (n : Numeral)
  | group (w : Word)

namespace Selector

/-- A name with its selector: `s`, `s()`, `s:w`, `s(n)`, `s(:n)` or `(s:w)`. -/
def spell (s : Text) : Selector → Text
  | none => s
  | call => s ++ ['(', ')']
  | word w => s ++ ':' :: w.text
  | number n => s ++ '(' :: (n.text ++ [')'])
  | overload n => s ++ '(' :: ':' :: (n.text ++ [')'])
  | group w => '(' :: (s ++ ':' :: (w.text ++ [')']))

/-- What is left of a name where the words behind colons are dropped. -/
def bare (s : Text) : Selector → Text
  | none | word _ => s
  | call | overload _ => s ++ ['(', ')']
  | number n => s ++ '(' :: (n.text ++ [')'])
  | group _ => '(' :: (s ++ [')'])

/-- A number in parentheses, without a colon. -/
def isNumber : Selector → Bool
  | number _ => true
  | _ => false

end Selector

/-- The characters around names and words. -/
def isMark (c : Char) : Bool := c == ':' || c == '(' || c == ')' || c == '.'

/-- A name of characters of words and dollar signs, with a selector. -/
structure Spelled where
  name : Text
  selector : Selector
  isName : isWordName name = true

namespace Spelled

def text (s : Spelled) : Text := s.selector.spell s.name

def bare (s : Spelled) : Text := s.selector.bare s.name

/-- The name that a name with a selector is read as. -/
def read (s : Spelled) : Text :=
  match s.selector with
  | .number n => s.name ++ n.text
  | _ => s.name

theorem isGroupChar_of_mem (s : Spelled) (hc : c ∈ s.name) : isGroupChar c = true :=
  (isWordName_iff.mp s.isName).2 c hc

end Spelled

theorem Word.isGroupChar_of_mem (w : Word) (hc : c ∈ w.text) : isGroupChar c = true := by
  rw [isGroupChar, List.all_eq_true.mp w.isWord c hc, Bool.true_or]

theorem Numeral.isGroupChar_of_mem (n : Numeral) (hc : c ∈ n.text) : isGroupChar c = true :=
  n.toWord.isGroupChar_of_mem hc

namespace Spelled

theorem isWordName_read (s : Spelled) : isWordName s.read = true := by
  unfold read
  split
  · rename_i n _
    rw [isWordName_iff]
    constructor
    · intro hnil
      exact n.ne_nil (List.append_eq_nil_iff.mp hnil).2
    · intro c hc
      rcases List.mem_append.mp hc with hc | hc
      · exact s.isGroupChar_of_mem hc
      · exact n.isGroupChar_of_mem hc
  · exact s.isName

theorem read_of_not_isNumber (s : Spelled) (h : s.selector.isNumber = false) :
    s.read = s.name := by
  unfold read
  split
  · rename_i hselector
    rw [hselector] at h
    cases h
  · rfl

/-- Besides the characters of names, only colons and parentheses are written. -/
theorem mem_text (s : Spelled) (hc : c ∈ s.text) : isGroupChar c = true ∨ isMark c = true := by
  have hname : c ∈ s.name → isGroupChar c = true := s.isGroupChar_of_mem
  have hword : ∀ w : Word, c ∈ w.text → isGroupChar c = true := fun w => w.isGroupChar_of_mem
  have hdigits : ∀ n : Numeral, c ∈ n.text → isGroupChar c = true := fun n => n.isGroupChar_of_mem
  unfold text at hc
  cases hselector : s.selector with
  | none => exact .inl (hname (by simpa [hselector, Selector.spell] using hc))
  | call | word w | number n | overload n | group w =>
    simp only [hselector, Selector.spell, List.mem_append, List.mem_cons, List.not_mem_nil] at hc
    grind [isMark]

end Spelled

/-! ## Scans -/

/-- The word of a selector goes on to its end. -/
theorem dropSelectors_inside (hw : ∀ c ∈ w, Text.isWord c = true)
    (ht : t.head?.any Text.isWord = false) :
    dropSelectors true (w ++ t) = dropSelectors false t := by
  induction w with
  | nil =>
    cases t with
    | nil => rfl
    | cons c t =>
      rw [List.head?_cons, Option.any_some] at ht
      rw [List.nil_append, dropSelectors, dropSelectors, ht]
      rfl
  | cons c w ih =>
    obtain ⟨hc, hw⟩ := List.forall_mem_cons.mp hw
    rw [List.cons_append, dropSelectors, hc, if_pos (by rfl)]
    exact ih hw

/-- A selector is dropped with its colon. -/
theorem dropSelectors_word (w : Word) (ht : t.head?.any Text.isWord = false) :
    dropSelectors false (':' :: (w.text ++ t)) = dropSelectors false t := by
  have hhead : (w.text ++ t).head?.any Text.isWord = true := by
    obtain ⟨c, rest, hrest⟩ := List.exists_cons_of_ne_nil w.ne_nil
    have hc : c ∈ w.text := hrest ▸ List.mem_cons_self ..
    rw [hrest]
    exact List.all_eq_true.mp w.isWord c hc
  rw [dropSelectors, if_neg (by simp), hhead, if_pos (by simp)]
  exact dropSelectors_inside (List.all_eq_true.mp w.isWord) ht

/-- A mark without a word behind it stays. -/
theorem dropSelectors_cons (hc : c ≠ ':') (t : Text) :
    dropSelectors false (c :: t) = c :: dropSelectors false t := by
  rw [dropSelectors, if_neg (by simp), if_neg (by simp [hc])]

theorem group?_append (hg : ∀ c ∈ g, isGroupChar c = true) (t : Text) :
    group? (g ++ ')' :: t) = some (g, t) := by
  have hstart : Text.trimStart (g ++ ')' :: t) = g ++ ')' :: t := by
    rw [Text.trimStart_eq_self_iff]
    intro c hc
    cases g with
    | nil =>
      obtain rfl := Option.some.inj hc
      rfl
    | cons d g =>
      obtain rfl := Option.some.inj hc
      exact isBlank_of_isGroupChar (hg _ (List.mem_cons_self ..))
  have hclose : isGroupChar ')' = false := rfl
  have htake : (g ++ ')' :: t).takeWhile isGroupChar = g := by
    rw [List.takeWhile_append_of_pos hg, List.takeWhile_cons_of_neg (by simp [hclose]),
      List.append_nil]
  have hdrop : (g ++ ')' :: t).dropWhile isGroupChar = ')' :: t := by
    rw [List.dropWhile_append_of_pos hg, List.dropWhile_cons_of_neg (by simp [hclose])]
  have hend : Text.trimStart (')' :: t) = ')' :: t := Text.trimStart_cons rfl t
  unfold group?
  dsimp only
  rw [hstart, hdrop, hend, htake]
  rfl

/-- Parentheses around a word, or around nothing, are opened. -/
theorem openGroups_group (hg : ∀ c ∈ g, isGroupChar c = true) (t : Text) :
    openGroups ('(' :: (g ++ ')' :: t)) = g ++ openGroups t := by
  rw [openGroups, if_pos rfl]
  split
  · rename_i found hfound
    rw [group?_append hg] at hfound
    obtain rfl := Option.some.inj hfound
    rfl
  · rename_i hnone
    rw [group?_append hg] at hnone
    cases hnone

theorem join_dot_cons (part : Text) {parts : List Text} (h : parts ≠ []) :
    Text.join "." (part :: parts) = part ++ '.' :: Text.join "." parts := by
  rw [Text.join_cons _ _ h, List.append_assoc]
  rfl

/-- A scan that goes over each of some names in front of any dot, or of nothing, goes over all of
them joined by dots. -/
theorem scan_join {scan : Text → Text} {written read : Spelled → Text} (hnil : scan [] = [])
    (hdot : ∀ t, scan ('.' :: t) = '.' :: scan t)
    (hscan : ∀ s t, t.head?.any Text.isWord = false → scan (written s ++ t) = read s ++ scan t)
    (spelled : List Spelled) :
    scan (Text.join "." (spelled.map written)) = Text.join "." (spelled.map read) := by
  induction spelled with
  | nil => exact hnil
  | cons s spelled ih =>
    rw [List.map_cons, List.map_cons]
    by_cases hlast : spelled = []
    · have hend := hscan s [] rfl
      rw [hlast, List.map_nil, List.map_nil, Text.join_singleton, Text.join_singleton]
      rwa [hnil, List.append_nil, List.append_nil] at hend
    · have hmap : ∀ f : Spelled → Text, spelled.map f ≠ [] := fun f => by simpa using hlast
      rw [join_dot_cons _ (hmap written), join_dot_cons _ (hmap read), hscan s _ rfl, hdot, ih]

namespace Spelled

theorem not_mem_name (s : Spelled) (hc : isGroupChar c = false) : c ∉ s.name := by
  intro hmem
  rw [s.isGroupChar_of_mem hmem] at hc
  cases hc

/-- The first scan drops the words behind colons. -/
theorem dropSelectors_text (s : Spelled) (ht : t.head?.any Text.isWord = false) :
    dropSelectors false (s.text ++ t) = s.bare ++ dropSelectors false t := by
  have hname : ∀ rest, dropSelectors false (s.name ++ rest) = s.name ++ dropSelectors false rest :=
    dropSelectors_append (s.not_mem_name rfl)
  have hmark : ∀ rest, (')' :: rest : Text).head?.any Text.isWord = false := fun rest => rfl
  have hparen : ∀ rest, dropSelectors false (')' :: rest) = ')' :: dropSelectors false rest :=
    dropSelectors_cons (by decide)
  have hopen : ∀ rest, dropSelectors false ('(' :: rest) = '(' :: dropSelectors false rest :=
    dropSelectors_cons (by decide)
  unfold text bare
  cases s.selector with
  | none => exact hname t
  | call =>
    simp only [Selector.spell, Selector.bare, List.append_assoc, List.cons_append, List.nil_append]
    rw [hname, hopen, hparen]
  | word w =>
    simp only [Selector.spell, Selector.bare, List.append_assoc, List.cons_append]
    rw [hname, dropSelectors_word w ht]
  | number n =>
    have hdigits : ':' ∉ n.text := fun hmem =>
      absurd (List.all_eq_true.mp n.isDigit _ hmem) (by decide)
    simp only [Selector.spell, Selector.bare, List.append_assoc, List.cons_append, List.nil_append]
    rw [hname, hopen, dropSelectors_append hdigits, hparen]
  | overload n =>
    simp only [Selector.spell, Selector.bare, List.append_assoc, List.cons_append, List.nil_append]
    rw [hname, hopen]
    exact congrArg (s.name ++ '(' :: ·)
      ((dropSelectors_word n.toWord (hmark t)).trans (hparen t))
  | group w =>
    simp only [Selector.spell, Selector.bare, List.append_assoc, List.cons_append, List.nil_append]
    rw [hopen, hname, dropSelectors_word w (hmark t), hparen]

/-- The second scan opens the parentheses that are left. -/
theorem openGroups_bare (s : Spelled) (t : Text) :
    openGroups (s.bare ++ t) = s.read ++ openGroups t := by
  have hname : ∀ rest, openGroups (s.name ++ rest) = s.name ++ openGroups rest :=
    openGroups_append (s.not_mem_name rfl)
  have hempty : openGroups ('(' :: ')' :: t) = openGroups t :=
    openGroups_group (List.forall_mem_nil _) t
  unfold bare read
  cases s.selector with
  | none | word w => exact hname t
  | call | overload n =>
    simp only [Selector.bare, List.append_assoc, List.cons_append, List.nil_append]
    rw [hname, hempty]
  | number n =>
    simp only [Selector.bare, List.append_assoc, List.cons_append, List.nil_append]
    rw [hname, openGroups_group (fun c hc => n.isGroupChar_of_mem hc)]
  | group w =>
    simp only [Selector.bare, List.append_assoc, List.cons_append, List.nil_append]
    rw [openGroups_group (fun c hc => s.isGroupChar_of_mem hc)]

end Spelled

/-! ## References -/

theorem mem_join_text {spelled : List Spelled}
    (hc : c ∈ Text.join "." (spelled.map Spelled.text)) :
    isGroupChar c = true ∨ isMark c = true := by
  by_contra hno
  rw [not_or] at hno
  refine Text.not_mem_join ?_ (fun p hp hmem => ?_) hc
  · rintro rfl
    exact hno.2 rfl
  · obtain ⟨s, -, rfl⟩ := List.mem_map.mp hp
    exact (s.mem_text hmem).elim hno.1 hno.2

/-- A reference with selectors lists the names that these are read as. -/
theorem segments_spelled (package? : Option Text) (spelled : List Spelled) :
    segments package? (Text.join "." (spelled.map Spelled.text)) = spelled.map Spelled.read := by
  have hblank : ∀ c ∈ Text.join "." (spelled.map Spelled.text), Text.isBlank c = false := by
    intro c hc
    rcases mem_join_text hc with hname | hmark
    · exact isBlank_of_isGroupChar hname
    · simp only [isMark, Bool.or_eq_true, beq_iff_eq] at hmark
      rcases hmark with ((rfl | rfl) | rfl) | rfl <;> rfl
  have hmark : '#' ∉ Text.join "." (spelled.map Spelled.text) := fun hmem =>
    (mem_join_text hmem).elim (by decide) (by decide)
  have htilde : '~' ∉ Text.join "." (spelled.map Spelled.text) := fun hmem =>
    (mem_join_text hmem).elim (by decide) (by decide)
  have hdrop : dropSelectors false (Text.join "." (spelled.map Spelled.text)) =
      Text.join "." (spelled.map Spelled.bare) :=
    scan_join rfl (dropSelectors_cons (by decide)) (fun s t ht => s.dropSelectors_text ht) spelled
  have hopen : openGroups (Text.join "." (spelled.map Spelled.bare)) =
      Text.join "." (spelled.map Spelled.read) :=
    scan_join (by rw [openGroups]) (fun t => by rw [openGroups, if_neg (by decide)])
      (fun s t _ => s.openGroups_bare t) spelled
  have hnames : ∀ n ∈ spelled.map Spelled.read, isWordName n = true := by
    intro n hn
    obtain ⟨s, -, rfl⟩ := List.mem_map.mp hn
    exact s.isWordName_read
  rw [segments_eq_of_plain _ hblank hmark htilde, hdrop, hopen, filter_splitAt_join hnames]

/-- What a reference leads to, or the error, hangs on the names that it lists, if there are any. -/
theorem reference_congr (h : namesOf root context? t = namesOf root context? u)
    (hne : namesOf root context? u ≠ []) :
    reference root types context? t = reference root types context? u := by
  unfold namesOf at h hne
  unfold reference
  dsimp only
  rw [h]
  cases hnames : segments ((context?.bind root.packageOf?).map root.nameAt) u with
  | nil => exact absurd hnames hne
  | cons first rest => rfl

theorem map_read_eq_iff {spelled : List Spelled} :
    spelled.map Spelled.read = spelled.map Spelled.name ↔
      ∀ s ∈ spelled, s.selector.isNumber = false := by
  rw [List.map_inj_left]
  refine forall₂_congr fun s _ => ⟨fun hread => ?_, s.read_of_not_isNumber⟩
  by_contra hnumber
  obtain ⟨name, selector, isName⟩ := s
  cases selector with
  | number n => exact n.ne_nil (List.append_right_eq_self.mp hread)
  | none | call | word w | overload n | group w => exact hnumber rfl

/-- A reference of names with selectors leads where the names lead that these are read as, and these
are the names themselves exactly if no number stands in parentheses without a colon. So all other
selectors can be left out. -/
theorem reference_spelled (root : Declaration) (types : TypeMap) (context? : Option Address)
    (spelled : List Spelled) :
    reference root types context? (Text.join "." (spelled.map Spelled.text)) =
      reference root types context? (Text.join "." (spelled.map Spelled.read)) ∧
    (namesOf root context? (Text.join "." (spelled.map Spelled.text)) = spelled.map Spelled.name ↔
      ∀ s ∈ spelled, s.selector.isNumber = false) ∧
    ((∀ s ∈ spelled, s.selector.isNumber = false) →
      reference root types context? (Text.join "." (spelled.map Spelled.text)) =
        reference root types context? (Text.join "." (spelled.map Spelled.name))) := by
  have hlisted : namesOf root context? (Text.join "." (spelled.map Spelled.text)) =
      spelled.map Spelled.read := segments_spelled _ spelled
  have hread : reference root types context? (Text.join "." (spelled.map Spelled.text)) =
      reference root types context? (Text.join "." (spelled.map Spelled.read)) := by
    by_cases hnil : spelled = []
    · rw [hnil]
      rfl
    · have hnames : namesOf root context? (Text.join "." (spelled.map Spelled.read)) =
          spelled.map Spelled.read := by
        refine segments_join _ fun n hn => ?_
        obtain ⟨s, -, rfl⟩ := List.mem_map.mp hn
        exact s.isWordName_read
      refine reference_congr (hlisted.trans hnames.symm) ?_
      rw [hnames]
      simpa using hnil
  refine ⟨hread, ?_, fun hplain => ?_⟩
  · rw [hlisted]
    exact map_read_eq_iff
  · rw [hread, map_read_eq_iff.mpr hplain]

/-- A package with a class that has a method with two declarations. -/
def aviary : Declaration :=
  ⟨.plain .package "aviary", [⟨.plain .entryPoint [], [
    ⟨.plain .classType "Parrot", [
      ⟨{ Info.plain .method "talk" with overloadIndex := 1 }, []⟩,
      ⟨{ Info.plain .method "talk" with overloadIndex := 2 }, []⟩]⟩]⟩]⟩

/-- The first declaration of a method, selected by its number. -/
def firstTalk : List Spelled :=
  [⟨"Parrot", .none, rfl⟩, ⟨"talk", .number ⟨"1", by decide, rfl⟩, rfl⟩]

/-- The number of an overload in parentheses is taken for a part of the name. -/
theorem reference_number_misread :
    Text.join "." (firstTalk.map Spelled.text) = "Parrot.talk(1)" ∧
    Text.join "." (firstTalk.map Spelled.name) = "Parrot.talk" ∧
    reference aviary (TypeMap.of aviary).value (some [0, 0]) "Parrot.talk" = .ok [0, 0, 0] ∧
    reference aviary (TypeMap.of aviary).value (some [0, 0]) "Parrot.talk(1)" =
      .error "Parrot has no member 'talk1'" := by
  decide +kernel

end ApiReference.Scope
