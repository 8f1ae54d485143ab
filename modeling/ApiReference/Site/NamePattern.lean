import ApiReference.Text.Basic

/-!
# Patterns of names

A pattern of names is a list of pieces, each for one character or for any number of
them.  `Fits` says which names fit, and `fits` decides it without trying the pieces
again and again: from the last piece to the first, it finds out for all ends of the
name at once whether they fit (`fits_iff`).
-/

namespace ApiReference.Site

/-- What stands in a bracket set: a character, or two of them with a hyphen between for all from
the one to the other. -/
inductive CharRange where
  | only (c : Char)
  | between (first last : Char)
deriving DecidableEq, Repr

namespace CharRange

def contains : CharRange → Char → Bool
  | only a, c => a == c
  | between first last, c => decide (first ≤ c) && decide (c ≤ last)

/-- Nothing is between two characters in the wrong order. -/
def isEmpty : CharRange → Bool
  | only _ => false
  | between first last => decide (last < first)

/-- Reads what stands between the brackets. A hyphen at an end is a character like others. -/
def listOfText : Text → List CharRange
  | a :: '-' :: b :: set => .between a b :: listOfText set
  | a :: set => .only a :: listOfText set
  | [] => []

end CharRange

/-- What one character of a name may be. -/
inductive Single where
  | anything
  | oneOf (negated : Bool) (ranges : List CharRange)
  | exactly (c : Char)
deriving DecidableEq, Repr

/-- A piece of a pattern of names. -/
inductive Piece where
  | one (single : Single)
  /-- Any number of characters. -/
  | many
deriving DecidableEq, Repr

abbrev NamePattern := List Piece

def Single.accepts : Single → Char → Bool
  | anything, _ => true
  | oneOf negated ranges, c => ranges.any (·.contains c) != negated
  | exactly a, c => a == c

/-- Empty ranges at the front of a set count as if they were not there. If an exclamation mark
comes to the front in that way, it negates the set, and a hyphen after it is a character. -/
def Single.ofRanges (ranges : List CharRange) : Single :=
  match ranges.dropWhile CharRange.isEmpty with
  | .only '!' :: rest => .oneOf true rest
  | .between '!' last :: rest => .oneOf true (.only '-' :: .only last :: rest)
  | present => .oneOf false present

/-- The bracket set that a pattern goes on with after `[`, and what follows its bracket. A bracket
that comes first belongs to the set. -/
def bracketSet? (pattern : Text) : Option (Single × Text) :=
  let negated := pattern.head? == some '!'
  match if negated then pattern.drop 1 else pattern with
  | [] => none
  | first :: rest =>
    let parts := Text.cut ']' rest
    let ranges := CharRange.listOfText (first :: parts.1)
    parts.2.map fun after => (if negated then .oneOf true ranges else .ofRanges ranges, after)

theorem bracketSet?_length {pattern : Text} {found : Single × Text}
    (h : bracketSet? pattern = some found) : found.2.length < pattern.length := by
  simp only [bracketSet?] at h
  split at h
  · cases h
  · rename_i first rest hb
    obtain ⟨after, ha, rfl⟩ := Option.map_eq_some_iff.1 h
    have h1 := Text.length_lt_of_cut ha
    have h2 : rest.length < pattern.length := by
      split at hb
      · have := congrArg List.length hb
        simp only [List.length_drop, List.length_cons] at this
        omega
      · simp [hb]
    simp only
    omega

namespace NamePattern

/-- Reads a pattern: an asterisk stands for any characters, a question mark for one, brackets for
one of a set. -/
def ofText : Text → NamePattern
  | [] => []
  | c :: t =>
    if c = '*' then .many :: ofText t
    else if c = '?' then .one .anything :: ofText t
    else if c = '[' then
      match _h : bracketSet? t with
      | some (set, after) => .one set :: ofText after
      | none => .one (.exactly c) :: ofText t
    else .one (.exactly c) :: ofText t
termination_by t => t.length
decreasing_by
  all_goals simp only [List.length_cons]
  · omega
  · omega
  · have := bracketSet?_length _h
    simp only at this
    omega
  · omega
  · omega

/-- A name fits a pattern. -/
inductive Fits : NamePattern → Text → Prop
  | done : Fits [] []
  | one {single : Single} {p : NamePattern} {c : Char} {name : Text} :
      single.accepts c → Fits p name → Fits (.one single :: p) (c :: name)
  | none {p : NamePattern} {name : Text} : Fits p name → Fits (.many :: p) name
  | more {p : NamePattern} {c : Char} {name : Text} :
      Fits (.many :: p) name → Fits (.many :: p) (c :: name)

/-- Whether one of some answers or of those after it is positive, for each of them. -/
def orLater : List Bool → List Bool
  | [] => []
  | b :: bs =>
    let later := orLater bs
    (b || later.headD false) :: later

/-- Whether a pattern fits an end of a name, for each end from the whole name to the empty one. -/
def fitsEnds (name : Text) : NamePattern → List Bool
  | [] => name.map (fun _ => false) ++ [true]
  | .one single :: p =>
    List.zipWith (fun c later => single.accepts c && later) name (fitsEnds name p).tail ++ [false]
  | .many :: p => orLater (fitsEnds name p)

def fits (p : NamePattern) (name : Text) : Bool := (fitsEnds name p).headD false

theorem length_orLater (bs : List Bool) : (orLater bs).length = bs.length := by
  induction bs with
  | nil => rfl
  | cons b bs ih => simp [orLater, ih]

theorem length_fitsEnds (name : Text) (p : NamePattern) :
    (fitsEnds name p).length = name.length + 1 := by
  induction p with
  | nil => simp [fitsEnds]
  | cons piece p ih =>
    cases piece with
    | one single => simp [fitsEnds, ih]
    | many => simp [fitsEnds, length_orLater, ih]

theorem exists_fitsEnds (name : Text) (p : NamePattern) :
    ∃ bs, fitsEnds name p = fits p name :: bs := by
  have h := length_fitsEnds name p
  cases he : fitsEnds name p with
  | nil => simp [he] at h
  | cons b bs => exact ⟨bs, by simp [fits, he]⟩

/-- The ends of a longer name are the name itself and the ends of the shorter one. -/
theorem exists_fitsEnds_cons (c : Char) (name : Text) (p : NamePattern) :
    ∃ b, fitsEnds (c :: name) p = b :: fitsEnds name p := by
  induction p with
  | nil => exact ⟨false, rfl⟩
  | cons piece p ih =>
    obtain ⟨b, h⟩ := ih
    cases piece with
    | one single =>
      obtain ⟨bs, hb⟩ := exists_fitsEnds name p
      exact ⟨single.accepts c && fits p name, by simp [fitsEnds, h, hb]⟩
    | many => exact ⟨b || (orLater (fitsEnds name p)).headD false, by simp [fitsEnds, h, orLater]⟩

theorem fits_one_cons (single : Single) (p : NamePattern) (c : Char) (name : Text) :
    fits (.one single :: p) (c :: name) = (single.accepts c && fits p name) := by
  obtain ⟨b, h⟩ := exists_fitsEnds_cons c name p
  obtain ⟨bs, hb⟩ := exists_fitsEnds name p
  rw [fits, fitsEnds, h, List.tail_cons, hb]
  rfl

theorem fits_many_nil (p : NamePattern) : fits (.many :: p) [] = fits p [] := by
  have h := length_fitsEnds [] p
  obtain ⟨bs, hb⟩ := exists_fitsEnds [] p
  rw [hb] at h
  cases bs with
  | nil =>
    rw [fits, fitsEnds, hb]
    exact Bool.or_false _
  | cons b bs => simp at h

theorem fits_many_cons (p : NamePattern) (c : Char) (name : Text) :
    fits (.many :: p) (c :: name) = (fits p (c :: name) || fits (.many :: p) name) := by
  obtain ⟨b, h⟩ := exists_fitsEnds_cons c name p
  simp only [fits, fitsEnds, h, orLater, List.headD_cons]

theorem fits_of_fits {p : NamePattern} {name : Text} (h : Fits p name) : fits p name = true := by
  induction h with
  | done => rfl
  | one hc _ ih => simp [fits_one_cons, hc, ih]
  | @none p name _ ih =>
    cases name with
    | nil => rw [fits_many_nil, ih]
    | cons c name => rw [fits_many_cons, ih, Bool.true_or]
  | more _ ih => rw [fits_many_cons, ih, Bool.or_true]

theorem fits_iff {p : NamePattern} {name : Text} : fits p name = true ↔ Fits p name := by
  refine ⟨fun h => ?_, fits_of_fits⟩
  induction p generalizing name with
  | nil =>
    cases name with
    | nil => exact .done
    | cons c name => simp [fits, fitsEnds] at h
  | cons piece p ih =>
    cases piece with
    | one single =>
      cases name with
      | nil => simp [fits, fitsEnds] at h
      | cons c name =>
        rw [fits_one_cons, Bool.and_eq_true] at h
        exact .one h.1 (ih h.2)
    | many =>
      induction name with
      | nil => exact .none (ih (fits_many_nil p ▸ h))
      | cons c name ihn =>
        rw [fits_many_cons, Bool.or_eq_true] at h
        rcases h with h | h
        · exact .none (ih h)
        · exact .more (ihn h)

end NamePattern

end ApiReference.Site
