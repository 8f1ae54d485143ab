/-!
# Texts as lists of code points

Texts are scanned everywhere in this library, from the left and a character at a
time.  So a text is a list, and scanning it is structural recursion.
-/

namespace ApiReference

/-- A text is the list of its code points, so that scanning it is recursion on a list. -/
abbrev Text := List Char

instance : Coe String Text := ⟨String.toList⟩

namespace Text

/-- The texts in order, with `separator` between neighbours. -/
def join (separator : Text) (parts : List Text) : Text :=
  List.intercalate separator parts

/-- What follows `start` when the text starts with it. -/
def after? : (start text : Text) → Option Text
  | [], text => some text
  | _ :: _, [] => none
  | a :: start, c :: text => if a = c then after? start text else none

/-- Whether `piece` occurs in the text. -/
def includes (piece : Text) : Text → Bool
  | [] => piece.isEmpty
  | c :: text => piece.isPrefixOf (c :: text) || includes piece text

/-- The pieces between the occurrences of `separator`: always one more than there are. -/
def splitAt (separator : Char) : Text → List Text
  | [] => [[]]
  | c :: text =>
    if c = separator then [] :: splitAt separator text
    else match splitAt separator text with
      | piece :: pieces => (c :: piece) :: pieces
      | [] => [[c]]

/-- The text before the first `separator`, and what follows it if there is one. -/
def cut (separator : Char) : Text → Text × Option Text
  | [] => ([], none)
  | c :: text =>
    if c = separator then ([], some text)
    else
      let rest := cut separator text
      (c :: rest.1, rest.2)

/-- The decimal digits of a number. -/
def ofNat (n : Nat) : Text := Nat.toDigits 10 n

/-- The decimal digits of a number, after a hyphen when it is negative. -/
def ofInt : Int → Text
  | .ofNat n => ofNat n
  | .negSucc n => '-' :: ofNat (n + 1)

/-- Code point order, a text before its extensions. -/
def lt : Text → Text → Bool
  | _, [] => false
  | [], _ :: _ => true
  | a :: s, b :: t => a < b || (a == b && lt s t)

/-- Code point order, reflexive. -/
def le (s t : Text) : Bool := !lt t s

@[simp] theorem after?_append (start text : Text) : after? start (start ++ text) = some text := by
  induction start with
  | nil => rfl
  | cons a start ih => simp [after?, ih]

theorem after?_eq_some {start text rest : Text} :
    after? start text = some rest ↔ text = start ++ rest := by
  induction start generalizing text with
  | nil => simp [after?, eq_comm]
  | cons a start ih =>
    cases text with
    | nil => simp [after?]
    | cons c text =>
      by_cases h : a = c
      · simp [after?, h, ih]
      · simp only [after?, h, if_false, List.cons_append, List.cons.injEq, reduceCtorEq, false_iff]
        exact fun e => h e.1.symm

/-- What follows a separator is shorter than the text. -/
theorem length_lt_of_cut {separator : Char} {text rest : Text}
    (h : (cut separator text).2 = some rest) : rest.length < text.length := by
  induction text with
  | nil => cases h
  | cons c text ih =>
    rw [cut] at h
    split at h
    · obtain rfl := Option.some.inj h
      exact Nat.lt_succ_self _
    · exact Nat.lt_succ_of_lt (ih h)

/-- Code point order is the order of lists of characters. -/
@[simp] theorem lt_iff {s t : Text} : lt s t = true ↔ s < t := by
  induction s generalizing t with
  | nil => cases t <;> simp [lt]
  | cons a s ih =>
    cases t with
    | nil => simp [lt]
    | cons b t => simp [lt, ih, List.cons_lt_cons_iff]

theorem splitAt_ne_nil (separator : Char) (text : Text) : splitAt separator text ≠ [] := by
  cases text with
  | nil => simp [splitAt]
  | cons c text =>
    simp only [splitAt]
    split
    · simp
    · split <;> simp

end Text

end ApiReference
