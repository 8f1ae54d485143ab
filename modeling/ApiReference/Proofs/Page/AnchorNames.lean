import Mathlib.Data.List.Basic
import Mathlib.Data.List.Induction
import ApiReference.Page.Router
import ApiReference.Proofs.Text.Split

/-!
# Anchors tell members apart

An anchor is the name of its member and some words, each behind a hyphen.  Names may
have hyphens themselves, so an anchor is read from its end: no word has a hyphen, and of all
the words only the first one is that of a category (`append_hyphened_injective`).  Two
anchors are equal exactly if names, categories, static modifiers and overloads are
(`anchorOf?_eq_iff`).
-/

namespace ApiReference.Page

open Declaration

variable {i j : Info} {s t p q w : Text}

/-! ## What an anchor is made of -/

/-- What a member is, as far as its anchor tells. -/
inductive Category where
  | method | event | property
deriving DecidableEq, Repr

namespace Category

def of? (i : Info) : Option Category :=
  if i.kind.isMethod then some method
  else if i.kind.isProperty then some (if i.isEvent then event else property)
  else none

def word : Category → Text
  | method => "method"
  | event => "event"
  | property => "property"

variable {category category' : Category}

theorem word_injective (h : category.word = category'.word) : category = category' := by
  cases category <;> cases category' <;> first | rfl | exact absurd h (by decide)

theorem hyphen_not_mem_word (category : Category) : '-' ∉ category.word := by
  cases category <;> decide

theorem isSome_of?_iff :
    (of? i).isSome = true ↔ i.kind.isMethod = true ∨ i.kind.isProperty = true := by
  unfold of?
  cases i.kind.isMethod <;> cases i.kind.isProperty <;> simp

theorem eq_method_iff (h : of? i = some category) :
    category = method ↔ i.kind.isMethod = true := by
  unfold of? at h
  split at h
  · rename_i hmethod
    exact iff_of_true (Option.some.inj h).symm hmethod
  · rename_i hmethod
    refine iff_of_false (fun hcategory => ?_) hmethod
    rw [hcategory] at h
    split at h
    · split at h <;> cases h
    · cases h

end Category

/-- The number of an overload that is not the first. -/
def overloadWords (i : Info) : List Text :=
  if i.kind.takesParameters && decide (1 < i.overloadIndex) then [Text.ofInt i.overloadIndex]
  else []

/-- The words behind that of the category. -/
def extraWords (i : Info) : List Text :=
  (if i.isStatic then [("static" : Text)] else []) ++ overloadWords i

/-- The words, each behind a hyphen. -/
def hyphened (words : List Text) : Text := words.flatMap ('-' :: ·)

theorem anchorOf?_eq_hyphened {category : Category} (h : Category.of? i = some category) :
    anchorOf? i = some (i.name ++ hyphened (category.word :: extraWords i)) := by
  have hmark : categoryMark? i = some ('-' :: category.word) := by
    unfold Category.of? at h
    unfold categoryMark?
    split at h
    · rename_i hmethod
      obtain rfl := Option.some.inj h
      exact if_pos hmethod
    · rename_i hmethod
      rw [if_neg hmethod]
      split at h
      · rename_i hproperty
        obtain rfl := Option.some.inj h
        rw [if_pos hproperty]
        split <;> rfl
      · cases h
  have hstatic : staticMark i = hyphened (if i.isStatic then [("static" : Text)] else []) := by
    unfold staticMark
    split <;> rfl
  have hoverload : overloadMark '-' i = hyphened (overloadWords i) := by
    unfold overloadMark overloadWords
    split
    · exact (List.append_nil _).symm
    · rfl
  have hextra : hyphened (extraWords i) = staticMark i ++ overloadMark '-' i := by
    rw [hstatic, hoverload]
    exact List.flatMap_append
  rw [anchorOf?, hmark, Option.map_some, List.append_assoc, List.append_assoc, ← hextra]
  rfl

/-! ## Reading from the end -/

/-- A text ends with one word behind its last hyphen. -/
theorem append_hyphen_injective (hp : '-' ∉ p) (hq : '-' ∉ q)
    (h : s ++ '-' :: p = t ++ '-' :: q) : s = t ∧ p = q := by
  have hcut : ∀ {s p : Text}, '-' ∉ p →
      Text.cut '-' (s ++ '-' :: p).reverse = (p.reverse, some s.reverse) := by
    intro s p hp
    rw [List.reverse_append, List.reverse_cons, List.append_assoc]
    exact Text.cut_append_cons (by rwa [List.mem_reverse])
  have hparts := hcut (s := t) hq
  rw [← h, hcut hp] at hparts
  obtain ⟨hword, hrest⟩ := Prod.mk.inj hparts
  exact ⟨List.reverse_inj.mp (Option.some.inj hrest), List.reverse_inj.mp hword⟩

/-- A word that can stand behind that of a category. -/
structure IsExtra (w : Text) : Prop where
  no_hyphen : '-' ∉ w
  not_word : ∀ category : Category, category.word ≠ w

theorem hyphened_concat (words : List Text) (w : Text) :
    hyphened (words ++ [w]) = hyphened words ++ '-' :: w := by
  rw [hyphened, List.flatMap_append, List.flatMap_singleton]
  rfl

/-- A name, a category and further words are told by what is written with them. -/
theorem append_hyphened_injective {category category' : Category} {words words' : List Text}
    (hwords : ∀ w ∈ words, IsExtra w) (hwords' : ∀ w ∈ words', IsExtra w)
    (h : s ++ hyphened (category.word :: words) = t ++ hyphened (category'.word :: words')) :
    s = t ∧ category = category' ∧ words = words' := by
  have hconcat : ∀ (s : Text) (category : Category) (words : List Text) (w : Text),
      s ++ hyphened (category.word :: (words ++ [w])) =
        s ++ hyphened (category.word :: words) ++ '-' :: w := by
    intro s category words w
    rw [← List.cons_append, hyphened_concat, List.append_assoc]
  have hsingle : ∀ (s : Text) (category : Category),
      s ++ hyphened [category.word] = s ++ '-' :: category.word := by
    intro s category
    rw [hyphened, List.flatMap_singleton]
  -- from the end on: where one side comes to its category, its word is no further word of the other
  induction words using List.reverseRecOn generalizing words' with
  | nil =>
    rw [hsingle] at h
    rcases List.eq_nil_or_concat' words' with rfl | ⟨words', w', rfl⟩
    · rw [hsingle] at h
      obtain ⟨hname, hword⟩ := append_hyphen_injective category.hyphen_not_mem_word
        category'.hyphen_not_mem_word h
      exact ⟨hname, Category.word_injective hword, rfl⟩
    · have hw' := hwords' w' (by simp)
      rw [hconcat] at h
      obtain ⟨-, hword⟩ := append_hyphen_injective category.hyphen_not_mem_word hw'.no_hyphen h
      exact absurd hword (hw'.not_word category)
  | append_singleton words w ih =>
    have hw := hwords w (by simp)
    rw [hconcat] at h
    rcases List.eq_nil_or_concat' words' with rfl | ⟨words', w', rfl⟩
    · rw [hsingle] at h
      obtain ⟨-, hword⟩ := append_hyphen_injective hw.no_hyphen category'.hyphen_not_mem_word h
      exact absurd hword.symm (hw.not_word category')
    · have hw' := hwords' w' (by simp)
      rw [hconcat] at h
      obtain ⟨hfront, rfl⟩ := append_hyphen_injective hw.no_hyphen hw'.no_hyphen h
      obtain ⟨hname, hcategory, rfl⟩ := ih (fun v hv => hwords v (List.mem_append_left _ hv))
        (fun v hv => hwords' v (List.mem_append_left _ hv)) hfront
      exact ⟨hname, hcategory, rfl⟩

/-! ## The words of members -/

/-- The digits of a number that is not negative. -/
theorem ofInt_eq {n : Int} (h : 0 ≤ n) : Text.ofInt n = Nat.toDigits 10 n.toNat := by
  obtain ⟨n, rfl⟩ := Int.eq_ofNat_of_zero_le h
  rfl

theorem ofInt_injective {m n : Int} (hm : 0 ≤ m) (hn : 0 ≤ n) (h : Text.ofInt m = Text.ofInt n) :
    m = n := by
  rw [ofInt_eq hm, ofInt_eq hn] at h
  have hdigits := congrArg (Nat.ofDigitChars 10 · 0) h
  simp only [Nat.ofDigitChars_ten_toDigits] at hdigits
  omega

theorem all_isDigit_ofInt {n : Int} (h : 0 ≤ n) : ∀ c ∈ Text.ofInt n, c.isDigit = true := by
  intro c hc
  rw [ofInt_eq h] at hc
  exact Nat.isDigit_of_mem_toDigits (by omega) (by omega) hc

/-- The word for a number, which one does not have. -/
def numberWords (n : Int) : List Text := if 1 < n then [Text.ofInt n] else []

theorem numberWords_injective {m n : Int} (hm : 1 ≤ m) (hn : 1 ≤ n)
    (h : numberWords m = numberWords n) : m = n := by
  unfold numberWords at h
  split at h
  · split at h
    · exact ofInt_injective (by omega) (by omega) (List.singleton_inj.mp h)
    · cases h
  · split at h
    · cases h
    · omega

theorem isDigit_of_mem_overloadWords (h : w ∈ overloadWords i) : ∀ c ∈ w, c.isDigit = true := by
  unfold overloadWords at h
  split at h
  · rename_i hnumber
    rw [Bool.and_eq_true, decide_eq_true_eq] at hnumber
    rw [List.mem_singleton.mp h]
    exact all_isDigit_ofInt (by omega)
  · cases h

theorem isExtra_of_mem (h : w ∈ extraWords i) : IsExtra w := by
  rcases List.mem_append.mp h with h | h
  · split at h
    · rw [List.mem_singleton.mp h]
      refine ⟨by decide, fun category => ?_⟩
      cases category <;> decide
    · cases h
  · have hdigits := isDigit_of_mem_overloadWords h
    refine ⟨fun hmem => absurd (hdigits _ hmem) (by decide), fun category => ?_⟩
    rintro rfl
    cases category with
    | method => exact absurd (hdigits 'm' (by decide)) (by decide)
    | event => exact absurd (hdigits 'e' (by decide)) (by decide)
    | property => exact absurd (hdigits 'p' (by decide)) (by decide)

/-- Static members are known by their word, since a number has other characters. -/
theorem static_mem_extraWords_iff : ("static" : Text) ∈ extraWords i ↔ i.isStatic = true := by
  rw [extraWords, List.mem_append]
  constructor
  · rintro (h | h)
    · split at h
      · assumption
      · cases h
    · exact absurd (isDigit_of_mem_overloadWords h 's' (by decide)) (by decide)
  · intro h
    rw [if_pos h]
    exact .inl (List.mem_singleton_self _)

/-- Of the indices below the second overload the anchor tells nothing. -/
theorem overloadWords_of_isMethod (h : i.kind.isMethod = true) :
    overloadWords i = numberWords (max 1 i.overloadIndex) := by
  have hparameters : i.kind.takesParameters = true := by
    revert h
    cases i.kind <;> decide
  unfold overloadWords numberWords
  rw [hparameters, Bool.true_and]
  by_cases hindex : 1 < i.overloadIndex
  · rw [Int.max_eq_right (Int.le_of_lt hindex), if_pos (decide_eq_true hindex), if_pos hindex]
  · rw [Int.max_eq_left (Int.not_lt.mp hindex), if_neg (mt of_decide_eq_true hindex),
      if_neg (Int.lt_irrefl 1)]

theorem overloadWords_of_isProperty (h : i.kind.isProperty = true) : overloadWords i = [] := by
  have hparameters : i.kind.takesParameters = false := by
    revert h
    cases i.kind <;> decide
  rw [overloadWords, hparameters, Bool.false_and, if_neg Bool.false_ne_true]

/-! ## Members -/

/-- Methods or properties that agree in all that their anchors tell of them. -/
structure SameMember (i j : Info) : Prop where
  member : i.kind.isMethod = true ∨ i.kind.isProperty = true
  name : i.name = j.name
  category : Category.of? i = Category.of? j
  isStatic : i.isStatic = j.isStatic
  overload : i.kind.isMethod = true → max 1 i.overloadIndex = max 1 j.overloadIndex

instance SameMember.decidable (i j : Info) : Decidable (SameMember i j) :=
  decidable_of_iff ((i.kind.isMethod = true ∨ i.kind.isProperty = true) ∧ i.name = j.name ∧
      Category.of? i = Category.of? j ∧ i.isStatic = j.isStatic ∧
      (i.kind.isMethod = true → max 1 i.overloadIndex = max 1 j.overloadIndex))
    ⟨fun ⟨hmember, hname, hcategory, hstatic, hoverload⟩ =>
      ⟨hmember, hname, hcategory, hstatic, hoverload⟩,
      fun h => ⟨h.member, h.name, h.category, h.isStatic, h.overload⟩⟩

/-- The other one is a method or property too. -/
theorem SameMember.member' (h : SameMember i j) :
    j.kind.isMethod = true ∨ j.kind.isProperty = true := by
  rw [← Category.isSome_of?_iff, ← h.category, Category.isSome_of?_iff]
  exact h.member

/-- Two members have the same anchor exactly if they are the same as far as anchors tell. -/
theorem anchorOf?_eq_iff (hi : i.kind.isMethod = true ∨ i.kind.isProperty = true)
    (hj : j.kind.isMethod = true ∨ j.kind.isProperty = true) :
    anchorOf? i = anchorOf? j ↔ SameMember i j := by
  obtain ⟨category, hcategory⟩ := Option.isSome_iff_exists.mp (Category.isSome_of?_iff.mpr hi)
  obtain ⟨category', hcategory'⟩ := Option.isSome_iff_exists.mp (Category.isSome_of?_iff.mpr hj)
  have hmethod := Category.eq_method_iff hcategory
  have hmethod' := Category.eq_method_iff hcategory'
  rw [anchorOf?_eq_hyphened hcategory, anchorOf?_eq_hyphened hcategory', Option.some.injEq]
  constructor
  · intro h
    obtain ⟨hname, rfl, hextra⟩ := append_hyphened_injective (fun _ => isExtra_of_mem)
      (fun _ => isExtra_of_mem) h
    have hstatic : i.isStatic = j.isStatic := by
      rw [Bool.eq_iff_iff, ← static_mem_extraWords_iff, ← static_mem_extraWords_iff, hextra]
    have hoverload : overloadWords i = overloadWords j := by
      rw [extraWords, extraWords, hstatic] at hextra
      exact List.append_cancel_left hextra
    refine ⟨hi, hname, hcategory.trans hcategory'.symm, hstatic, fun hi => ?_⟩
    rw [overloadWords_of_isMethod hi,
      overloadWords_of_isMethod (hmethod'.mp (hmethod.mpr hi))] at hoverload
    exact numberWords_injective (Int.le_max_left _ _) (Int.le_max_left _ _) hoverload
  · rintro ⟨-, hname, hsame, hstatic, hindex⟩
    obtain rfl : category = category' :=
      Option.some.inj (hcategory.symm.trans (hsame.trans hcategory'))
    have hoverload : overloadWords i = overloadWords j := by
      by_cases hcase : category = .method
      · have hi := hmethod.mp hcase
        rw [overloadWords_of_isMethod hi, overloadWords_of_isMethod (hmethod'.mp hcase), hindex hi]
      · rw [overloadWords_of_isProperty (hi.resolve_left (mt hmethod.mpr hcase)),
          overloadWords_of_isProperty (hj.resolve_left (mt hmethod'.mpr hcase))]
    rw [hname, extraWords, extraWords, hstatic, hoverload]

end ApiReference.Page
