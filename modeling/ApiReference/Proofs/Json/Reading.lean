import ApiReference.Json.Parser
import ApiReference.Proofs.Diagnostics.Outcome
import Mathlib.Data.List.Infix

/-!
# Documents and what is read of them

A reader goes through a document from the left: what it leaves is an end of the document,
and so is what stands at a flaw (`Along`).  A report therefore names a place in the
document (`report_of_parse`).  Halves of surrogate pairs are looked for in the document
itself, and the reader of a text finds the same ones among its code units
(`spellsHalf_of_units`).
-/

namespace ApiReference.Json

variable {α β : Type} {a : α} {flaw : Flaw} {start input input' rest : Text} {us : List Nat}

/-! ## Flaws -/

/-- A reader leaves an end of the document, and a flaw that it finds is in the document. -/
structure Along (input : Text) (x : Except Misread (α × Text)) : Prop where
  rest : ∀ a rest, x = .ok (a, rest) → rest <:+ input
  flaw : ∀ flaw rest, x = .error (.malformed flaw rest) → rest <:+ input

namespace Along

variable {x : Except Misread (α × Text)} {f : α × Text → Except Misread (β × Text)}

theorem ok (h : rest <:+ input) : Along input (.ok (a, rest)) := by
  constructor
  · rintro _ _ ⟨⟩
    exact h
  · rintro _ _ ⟨⟩

theorem error (h : rest <:+ input) :
    Along input (.error (.malformed flaw rest) : Except Misread (α × Text)) := by
  constructor
  · rintro _ _ ⟨⟩
  · rintro _ _ ⟨⟩
    exact h

theorem longNumeral (input : Text) :
    Along input (.error .longNumeral : Except Misread (α × Text)) := ⟨nofun, nofun⟩

theorem tooDeep (input : Text) : Along input (.error .tooDeep : Except Misread (α × Text)) :=
  ⟨nofun, nofun⟩

theorem mono (h : Along input x) (hinput : input <:+ input') : Along input' x :=
  ⟨fun a rest hx => (h.rest a rest hx).trans hinput,
    fun flaw rest hx => (h.flaw flaw rest hx).trans hinput⟩

/-- The next reader starts where the first one has stopped. -/
theorem bind (hx : Along input x) (hf : ∀ a rest, rest <:+ input → Along input (f (a, rest))) :
    Along input (x >>= f) := by
  cases x with
  | error reason =>
    refine ⟨nofun, fun flaw rest h => ?_⟩
    exact hx.flaw flaw rest (congrArg Except.error (Except.error.inj h))
  | ok found => exact hf found.1 found.2 (hx.rest _ _ rfl)

theorem orFlaw {found : Option α} {g : α → Except Misread (β × Text)} (hrest : rest <:+ input)
    (hg : ∀ a, found = some a → Along input (g a)) :
    Along input (orFlaw flaw rest found >>= g) := by
  cases found with
  | none => exact error hrest
  | some a => exact hg a rfl

end Along

theorem skipSpace_suffix (input : Text) : skipSpace input <:+ input :=
  List.dropWhile_suffix isSpace

theorem suffix_of_skipSpace {c : Char} (h : skipSpace input = c :: rest) : rest <:+ input :=
  (List.suffix_cons c rest).trans (h ▸ skipSpace_suffix input)

/-- The flaws of a text are behind its opening quote, or there. -/
theorem along_units (h : input <:+ start) : Along start (units start input) := by
  fun_induction units start input with
  | case1 => exact .error List.suffix_rfl
  | case2 rest => exact .ok ((List.suffix_cons _ _).trans h)
  | case3 a b c d rest ih =>
    have hback : 'u' :: a :: b :: c :: d :: rest <:+ start := (List.suffix_cons _ _).trans h
    have hrest : rest <:+ start :=
      ((List.suffix_append [a, b, c, d] rest).trans (List.suffix_cons _ _)).trans hback
    exact .orFlaw hback fun unit _ => (ih hrest).bind fun us rest hrest => .ok hrest
  | case4 rest _ => exact .error ((List.suffix_cons _ _).trans h)
  | case5 c rest _ _ ih =>
    have hrest : rest <:+ start := (List.suffix_append ['\\', c] rest).trans h
    exact .orFlaw h fun unit _ => (ih hrest).bind fun us rest hrest => .ok hrest
  | case6 => exact .error List.suffix_rfl
  | case7 c rest => exact .error h
  | case8 c rest _ _ _ _ _ _ ih =>
    exact (ih ((List.suffix_cons _ _).trans h)).bind fun us rest hrest => .ok hrest

theorem along_quoted (rest : Text) : Along ('"' :: rest) (quoted rest) :=
  (along_units (List.suffix_cons _ _)).bind fun _ _ hrest => .ok hrest

theorem suffix_of_whole? {digits : Text} (h : whole? input = some (digits, rest)) :
    rest <:+ input := by
  unfold whole? at h
  split at h
  · cases h
  · cases h
    exact List.suffix_cons _ _
  · split at h
    · cases h
      exact List.dropWhile_suffix _
    · cases h

theorem fraction_suffix (input : Text) : (fraction input).2 <:+ input := by
  unfold fraction
  split
  · split
    · exact List.suffix_rfl
    · exact (List.dropWhile_suffix _).trans (List.suffix_cons _ _)
  · exact List.suffix_rfl

theorem sign_suffix (input : Text) : (sign input).2 <:+ input := by
  unfold sign
  split
  · exact List.suffix_cons _ _
  · exact List.suffix_cons _ _
  · exact List.suffix_rfl

theorem suffix_of_exponent? {e : Int} (h : exponent? input = some (e, rest)) : rest <:+ input := by
  unfold exponent? at h
  split at h
  · cases h
  · split at h
    · dsimp only at h
      split at h
      · cases h
      · cases h
        exact ((List.dropWhile_suffix _).trans (sign_suffix _)).trans (List.suffix_cons _ _)
    · cases h

theorem along_number (negative : Bool) (input : Text) : Along input (number negative input) := by
  unfold number
  split
  · exact .error List.suffix_rfl
  · rename_i digits rest hwhole
    have hrest := (fraction_suffix rest).trans (suffix_of_whole? hwhole)
    dsimp only
    split
    · rename_i hexponent
      exact .ok ((suffix_of_exponent? hexponent).trans hrest)
    · split
      · exact .ok hrest
      · split
        · exact .longNumeral input
        · exact .ok hrest

theorem along_word (input : Text) : Along input (word input) := by
  unfold word
  split
  · rename_i found hfound
    obtain ⟨word, -, hword⟩ := List.exists_of_findSome?_eq_some hfound
    obtain ⟨rest, hrest, rfl⟩ := Option.map_eq_some_iff.mp hword
    exact .ok (Text.after?_eq_some.mp hrest ▸ List.suffix_append word.1 rest)
  · exact .error List.suffix_rfl

theorem along_atom (input : Text) : Along input (atom input) := by
  unfold atom
  split
  · split
    · exact (along_number true _).mono (List.suffix_cons _ _)
    · exact along_word _
  · split
    · exact along_number false _
    · exact along_word _

/-- A reader may start behind some space. -/
theorem Along.behindSpace {x : Except Misread (α × Text)} (h : Along (skipSpace rest) x)
    (hrest : rest <:+ input) : Along input x :=
  h.mono ((skipSpace_suffix rest).trans hrest)

theorem along_value_succ {fuel : Nat} (hitems : ∀ depth input, Along input (items fuel depth input))
    (hfields : ∀ depth input, Along input (fields fuel depth input)) (depth : Nat)
    (input : Text) : Along input (value (fuel + 1) depth input) := by
  rw [value.eq_def]
  dsimp only
  split
  · exact (along_quoted _).bind fun t rest hrest => .ok hrest
  · exact .tooDeep _
  · exact .tooDeep _
  · rename_i rest depth
    have hopen : rest <:+ '[' :: rest := List.suffix_cons _ _
    split
    · rename_i hclose
      exact .ok ((suffix_of_skipSpace hclose).trans hopen)
    · exact ((hitems depth _).behindSpace hopen).bind fun xs rest hrest => .ok hrest
  · rename_i rest depth
    have hopen : rest <:+ '\x7b' :: rest := List.suffix_cons _ _
    split
    · rename_i hclose
      exact .ok ((suffix_of_skipSpace hclose).trans hopen)
    · exact ((hfields depth _).behindSpace hopen).bind fun fs rest hrest => .ok hrest
  · exact along_atom _

theorem along_items_succ {fuel : Nat} (hvalue : ∀ depth input, Along input (value fuel depth input))
    (hitems : ∀ depth input, Along input (items fuel depth input)) (depth : Nat)
    (input : Text) : Along input (items (fuel + 1) depth input) := by
  rw [items.eq_def]
  dsimp only
  refine (hvalue depth input).bind fun x rest hrest => ?_
  dsimp only
  split
  · rename_i hclose
    exact .ok ((suffix_of_skipSpace hclose).trans hrest)
  · rename_i more hcomma
    have hmore := (suffix_of_skipSpace hcomma).trans hrest
    exact ((hitems depth _).behindSpace hmore).bind fun xs rest hrest => .ok hrest
  · exact .error ((skipSpace_suffix rest).trans hrest)

theorem along_fields_succ {fuel : Nat}
    (hvalue : ∀ depth input, Along input (value fuel depth input))
    (hfields : ∀ depth input, Along input (fields fuel depth input)) (depth : Nat)
    (input : Text) : Along input (fields (fuel + 1) depth input) := by
  rw [fields.eq_def]
  dsimp only
  split
  · refine (along_quoted _).bind fun key rest hrest => ?_
    dsimp only
    split
    · rename_i behind hcolon
      have hbehind := (suffix_of_skipSpace hcolon).trans hrest
      refine ((hvalue depth _).behindSpace hbehind).bind fun x rest hrest => ?_
      dsimp only
      split
      · rename_i hclose
        exact .ok ((suffix_of_skipSpace hclose).trans hrest)
      · rename_i more hcomma
        have hmore := (suffix_of_skipSpace hcomma).trans hrest
        exact ((hfields depth _).behindSpace hmore).bind fun fs rest hrest => .ok hrest
      · exact .error ((skipSpace_suffix rest).trans hrest)
    · exact .error ((skipSpace_suffix rest).trans hrest)
  · exact .error List.suffix_rfl

/-- The readers of values, items and fields call each other with less fuel. -/
theorem along_values (fuel : Nat) :
    (∀ depth input, Along input (value fuel depth input)) ∧
      (∀ depth input, Along input (items fuel depth input)) ∧
      ∀ depth input, Along input (fields fuel depth input) := by
  induction fuel with
  | zero =>
    refine ⟨fun depth input => ?_, fun depth input => ?_, fun depth input => ?_⟩
    · rw [value]
      exact .error List.suffix_rfl
    · rw [items]
      exact .error List.suffix_rfl
    · rw [fields]
      exact .error List.suffix_rfl
  | succ fuel ih =>
    obtain ⟨hvalue, hitems, hfields⟩ := ih
    exact ⟨along_value_succ hitems hfields, along_items_succ hvalue hitems,
      along_fields_succ hvalue hfields⟩

/-- A flaw is in the document that has it. -/
theorem suffix_of_parse (h : parse input = .error (.malformed flaw rest)) : rest <:+ input := by
  rw [parse] at h
  split at h
  · cases h
    exact List.suffix_rfl
  · have hvalue := ((along_values (2 * input.length + 2)).1 maxDepth (skipSpace input)).mono
      (skipSpace_suffix input)
    cases hread : value (2 * input.length + 2) maxDepth (skipSpace input) with
    | error reason =>
      rw [hread] at h
      obtain rfl := Except.error.inj h
      exact hvalue.flaw flaw rest hread
    | ok found =>
      obtain ⟨x, behind⟩ := found
      rw [hread] at h
      dsimp only [bind, Except.bind] at h
      split at h
      · cases h
      · cases h
        exact (skipSpace_suffix behind).trans (hvalue.rest x behind hread)

/-- The report of a flaw counts the lines, the columns and the characters in front of it. -/
theorem report_of_parse (h : parse input = .error (.malformed flaw rest)) :
    ∃ before, before ++ rest = input ∧ flaw.report input rest =
      flaw.wording ++ ": line " ++ Text.ofNat (before.count '\n' + 1) ++ " column " ++
        Text.ofNat ((before.reverse.takeWhile (· != '\n')).length + 1) ++ " (char " ++
        Text.ofNat before.length ++ ")" := by
  obtain ⟨before, rfl⟩ := suffix_of_parse h
  refine ⟨before, rfl, ?_⟩
  rw [Flaw.report, List.length_append, Nat.add_sub_cancel, List.take_left]

example : Flaw.report "[1,\n 2" [] .comma =
    "Expecting ',' delimiter: line 2 column 3 (char 6)" := by
  decide

/-! ## Halves of surrogate pairs -/

/-- Whether code units hold half of a surrogate pair without the other half, where `high` tells
whether the first half of a pair stands directly before. -/
def holdHalf (high : Bool) : List Nat → Bool
  | [] => high
  | unit :: us =>
    if isLowSurrogate unit then !high || holdHalf false us
    else high || holdHalf (isHighSurrogate unit) us

/-- A character is no half of a surrogate pair. -/
theorem not_surrogate (c : Char) :
    isHighSurrogate c.toNat = false ∧ isLowSurrogate c.toNat = false := by
  have hvalid : c.toNat < 0xD800 ∨ 0xDFFF < c.toNat ∧ c.toNat < 0x110000 := c.valid
  simp only [isHighSurrogate, isLowSurrogate, Bool.and_eq_false_iff, decide_eq_false_iff_not]
  omega

theorem not_surrogate_of_escapeCode? {c : Char} {unit : Nat} (h : escapeCode? c = some unit) :
    isHighSurrogate unit = false ∧ isLowSurrogate unit = false := by
  unfold escapeCode? at h
  split at h <;> cases h <;> exact ⟨rfl, rfl⟩

theorem holdHalf_cons {unit : Nat}
    (h : isHighSurrogate unit = false ∧ isLowSurrogate unit = false) (high : Bool) :
    holdHalf high (unit :: us) = (high || holdHalf false us) := by
  rw [holdHalf, h.1, h.2, if_neg Bool.false_ne_true]

theorem orFlaw_eq_ok {found : Option α} : orFlaw flaw rest found = .ok a ↔ found = some a := by
  cases found <;> simp [orFlaw]

/-- What a document spells of halves is what the code units of its texts hold, text by text. -/
theorem spellsHalf_of_units (high : Bool) (h : units start input = .ok (us, rest)) :
    spellsHalf high input = (holdHalf high us || spellsHalf false rest) := by
  fun_induction units start input generalizing high us with
  | case1 => cases h
  | case2 rest =>
    cases h
    rfl
  | case3 a b c d behind ih =>
    obtain ⟨unit, hunit, h⟩ := bind_eq_ok.mp h
    obtain ⟨⟨us, rest⟩, hus, h⟩ := bind_eq_ok.mp h
    cases h
    have hhex : hexUnit? a b c d = some unit := by
      have hfound := orFlaw_eq_ok.mp hunit
      split at hfound
      · cases hfound
      · exact hfound
    rw [spellsHalf, hhex, holdHalf]
    dsimp only
    split
    · rw [ih false hus, Bool.or_assoc]
    · rw [ih _ hus, Bool.or_assoc]
  | case4 behind _ => cases h
  | case5 c behind hno hu ih =>
    obtain ⟨unit, hunit, h⟩ := bind_eq_ok.mp h
    obtain ⟨⟨us, rest⟩, hus, h⟩ := bind_eq_ok.mp h
    cases h
    rw [holdHalf_cons (not_surrogate_of_escapeCode? (orFlaw_eq_ok.mp hunit)), Bool.or_assoc,
      ← ih false hus, spellsHalf]
    exact hno
  | case6 => cases h
  | case7 c rest => cases h
  | case8 c behind _ hunit _ hescape _ _ ih =>
    obtain ⟨⟨us, rest⟩, hus, h⟩ := bind_eq_ok.mp h
    cases h
    rw [holdHalf_cons (not_surrogate c), Bool.or_assoc, ← ih false hus, spellsHalf]
    · exact hunit
    · exact hescape

example : spellsHalf false "\\ud83d\\ude00" = false ∧ spellsHalf false "\\ude00\\ud83d" = true := by
  decide

end ApiReference.Json
