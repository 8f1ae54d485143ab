import ApiReference.Decimal.Binary64

/-!
# Document values

Values as a document spells them: fields keep their order, and whole numbers of
any size stay apart from other numbers.
-/

namespace ApiReference

open Decimal

/-- A value of a JSON document. The fields of an object keep the order of the document, and whole
numbers stay apart from numbers with a fraction or an exponent. -/
inductive Json where
  | null
  | bool (value : Bool)
  | int (value : Int)
  | float (value : Binary64)
  | text (value : Text)
  | list (items : List Json)
  | object (fields : List (Text × Json))
deriving Repr

namespace Json

/-- Replaces the value of a field in its place, or adds the field at the end. -/
def insert (key : Text) (value : Json) : List (Text × Json) → List (Text × Json)
  | [] => [(key, value)]
  | field :: fields =>
    if field.1 = key then (key, value) :: fields else field :: insert key value fields

/-- The fields with every key once: at the place of its first occurrence, with its last value. -/
def ofFields (fields : List (Text × Json)) : Json :=
  .object (fields.foldl (fun known field => insert field.1 field.2 known) [])

/-- Empty texts, lists and objects, zero, `false` and `null` count as absent. -/
def isPresent : Json → Bool
  | null => false
  | bool b => b
  | int n => n != 0
  | float x => !x.isZero
  | text t => !t.isEmpty
  | list xs => !xs.isEmpty
  | object fs => !fs.isEmpty

def isObject : Json → Bool
  | object _ => true
  | _ => false

/-- The value itself when it is present, else the one given instead. -/
def orElse (value instead : Json) : Json := if value.isPresent then value else instead

theorem lookup_insert (key key' : Text) (value : Json) (fields : List (Text × Json)) :
    (insert key value fields).lookup key' =
      if key' = key then some value else fields.lookup key' := by
  induction fields with
  | nil =>
    by_cases h : key' = key
    · simp [insert, h]
    · simp [insert, List.lookup_cons, h, beq_false_of_ne h]
  | cons field fields ih =>
    obtain ⟨name, old⟩ := field
    by_cases hf : name = key
    · by_cases h : key' = key
      · simp [insert, hf, h]
      · simp [insert, List.lookup_cons, hf, h, beq_false_of_ne h]
    · by_cases h : key' = key
      · subst h
        simp [insert, List.lookup_cons, hf, ih, beq_false_of_ne (Ne.symm hf)]
      · simp only [insert, hf, if_false, List.lookup_cons, ih, h]

end Json

end ApiReference
