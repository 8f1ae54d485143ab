import ApiReference.Diagnostics.Fault
import ApiReference.Json.Basic
import ApiReference.Text.Blank
import ApiReference.Text.Digit

/-!
# Taking document values apart

Documents may hold any value anywhere.  Each function here asks for one shape and
names the fault when it meets another.
-/

namespace ApiReference.Json

/-- A field of an object, if it has it. -/
def field? (key : Text) : Json → Except Fault (Option Json)
  | object fields => .ok (fields.lookup key)
  | _ => .error .wrongShape

/-- A field of an object, or `null` in its place. -/
def fieldOrNull (key : Text) (value : Json) : Except Fault Json :=
  return (← value.field? key).getD null

/-- A field that has to be there. -/
def index (key : Text) : Json → Except Fault Json
  | object fields =>
    match fields.lookup key with
    | some value => .ok value
    | none => .error .missingKey
  | _ => .error .wrongType

/-- The items of a list, the characters of a text or the keys of an object. -/
def elements : Json → Except Fault (List Json)
  | list items => .ok items
  | text t => .ok (t.map fun c => text [c])
  | object fields => .ok (fields.map fun field => text field.1)
  | _ => .error .wrongType

def asText : Json → Except Fault Text
  | text t => .ok t
  | _ => .error .wrongShape

/-- The blanks that may surround a numeral of ASCII characters. -/
def isNumeralBlank (c : Char) : Bool :=
  c == ' ' || (9 ≤ c.toNat && c.toNat ≤ 13) || (127 ≤ c.toNat && Text.isBlank c)

/-- The number that digits spell, with at most one underscore between two of them. -/
def ofNumeral? (value : Nat) : Text → Option Nat
  | [] => some value
  | '_' :: c :: rest => do
    let d ← Text.digitValue? c
    ofNumeral? (value * 10 + d) rest
  | c :: rest => do
    let d ← Text.digitValue? c
    ofNumeral? (value * 10 + d) rest

/-- The whole number that a text spells, with blanks around it and a sign allowed. -/
def numeral? (t : Text) : Option Int := do
  let t := ((t.dropWhile isNumeralBlank).reverse.dropWhile isNumeralBlank).reverse
  let (negative, digits) : Bool × Text := match t with
    | '-' :: rest => (true, rest)
    | '+' :: rest => (false, rest)
    | rest => (false, rest)
  let first ← digits.head?
  let d ← Text.digitValue? first
  let n ← ofNumeral? d digits.tail
  if Text.maxDigits < digits.countP (· != '_') then none
  else return if negative then -n else n

/-- The whole number a value stands for: a fraction is cut off, and a text is read as a numeral. -/
def toInt : Json → Except Fault Int
  | int n => .ok n
  | bool b => .ok (if b then 1 else 0)
  | float x =>
    match x with
    | .nan => .error .notNumeral
    | .infinite _ => .error .infiniteNumber
    | .finite _ _ _ => .ok (x.truncate?.getD 0)
  | text t =>
    match numeral? t with
    | some n => .ok n
    | none => .error .notNumeral
  | null | list _ | object _ => .error .wrongType

end ApiReference.Json
