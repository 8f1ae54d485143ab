import ApiReference.Json.Basic
import ApiReference.Json.Flaw
import ApiReference.Json.Units
import ApiReference.Text.Digit

/-!
# Reading document values

A reader of documents by recursive descent over the list of characters.  Each step
returns the rest of the input.  Of several reasons to refuse a text the one that
stands first in it counts, and it is given with the rest of the input from there on.
-/

namespace ApiReference.Json

open Decimal

/-- How deep lists and objects may stand inside each other. -/
def maxDepth : Nat := 990

def isSpace (c : Char) : Bool := c == ' ' || c == '\t' || c == '\n' || c == '\r'

def skipSpace (input : Text) : Text := input.dropWhile isSpace

/-- What was found, or else a flaw of the rest of the text. -/
def orFlaw {α : Type} (flaw : Flaw) (rest : Text) : Option α → Except Misread α
  | some a => .ok a
  | none => .error (.malformed flaw rest)

/-- The code units of a text after its opening quote, and what follows its closing quote. Control
characters have to be escaped. `start` is the rest of the document from the opening quote on. -/
def units (start : Text) : Text → Except Misread (List Nat × Text)
  | [] => .error (.malformed .openText start)
  | '"' :: rest => .ok ([], rest)
  | '\\' :: 'u' :: a :: b :: c :: d :: rest => do
    -- at the very end of a document no number is read, since the closing quote is missing
    let unit ← orFlaw .unicodeEscape ('u' :: a :: b :: c :: d :: rest)
      (if rest.isEmpty then none else hexUnit? a b c d)
    let (us, rest) ← units start rest
    return (unit :: us, rest)
  | '\\' :: 'u' :: rest => .error (.malformed .unicodeEscape ('u' :: rest))
  | '\\' :: c :: rest => do
    let unit ← orFlaw .escape ('\\' :: c :: rest) (escapeCode? c)
    let (us, rest) ← units start rest
    return (unit :: us, rest)
  | ['\\'] => .error (.malformed .openText start)
  | c :: rest =>
    if c.toNat < 32 then .error (.malformed .controlCharacter (c :: rest))
    else do
      let (us, rest) ← units start rest
      return (c.toNat :: us, rest)

def ofDigits (digits : Text) : Nat := digits.foldl (fun n c => n * 10 + (c.toNat - 48)) 0

/-- The digits of a whole number, which has no zero in front of other digits. -/
def whole? : Text → Option (Text × Text)
  | [] => none
  | '0' :: rest => some (['0'], rest)
  | c :: rest =>
    if c.isDigit then some ((c :: rest).takeWhile Char.isDigit, (c :: rest).dropWhile Char.isDigit)
    else none

/-- The digits after a decimal point; a point without digits is not part of the number. -/
def fraction : Text → Text × Text
  | '.' :: rest =>
    if (rest.takeWhile Char.isDigit).isEmpty then ([], '.' :: rest)
    else (rest.takeWhile Char.isDigit, rest.dropWhile Char.isDigit)
  | input => ([], input)

/-- Whether an exponent is negative, and what follows its sign; it needs no sign. -/
def sign : Text → Bool × Text
  | '-' :: rest => (true, rest)
  | '+' :: rest => (false, rest)
  | input => (false, input)

/-- The exponent after an `e`; one without digits is not part of the number. -/
def exponent? : Text → Option (Int × Text)
  | [] => none
  | c :: rest =>
    if c = 'e' ∨ c = 'E' then
      let (negative, rest) := sign rest
      let digits := rest.takeWhile Char.isDigit
      if digits.isEmpty then none
      else
        let n : Int := ofDigits digits
        some (if negative then -n else n, rest.dropWhile Char.isDigit)
    else none

/-- Reads a number after its sign. Only whole numbers are bounded in their digits. -/
def number (negative : Bool) (input : Text) : Except Misread (Json × Text) :=
  match whole? input with
  | none => .error (.malformed .value input)
  | some (digits, rest) =>
    let (places, rest) := fraction rest
    let value (exponent : Int) : Json :=
      .float (.ofDecimal negative (ofDigits (digits ++ places)) (exponent - places.length))
    match exponent? rest with
    | some (e, rest) => .ok (value e, rest)
    | none =>
      if !places.isEmpty then .ok (value 0, rest)
      else if Text.maxDigits < digits.length then .error .longNumeral
      else
        let n : Int := ofDigits digits
        .ok (.int (if negative then -n else n), rest)

/-- The words that stand for a value. -/
def words : List (Text × Json) :=
  [("null", .null), ("true", .bool true), ("false", .bool false), ("NaN", .float .nan),
    ("Infinity", .float (.infinite false)), ("-Infinity", .float (.infinite true))]

def word (input : Text) : Except Misread (Json × Text) :=
  match words.findSome? fun word => (Text.after? word.1 input).map (word.2, ·) with
  | some found => .ok found
  | none => .error (.malformed .value input)

def startsWithDigit : Text → Bool
  | c :: _ => c.isDigit
  | [] => false

/-- Reads a number or a word. -/
def atom (input : Text) : Except Misread (Json × Text) :=
  match input with
  | '-' :: rest => if startsWithDigit rest then number true rest else word input
  | _ => if startsWithDigit input then number false input else word input

/-- Reads a text after its opening quote. -/
def quoted (rest : Text) : Except Misread (Text × Text) := do
  let (us, rest) ← units ('"' :: rest) rest
  return (joinUnits us, rest)

mutual

/-- Reads a value. The fuel bounds the length of what is read, and the depth what may still be
opened. -/
def value : (fuel depth : Nat) → Text → Except Misread (Json × Text)
  | 0, _, input => .error (.malformed .value input)
  | fuel + 1, depth, input =>
    match input, depth with
    | '"' :: rest, _ => do
      let (t, rest) ← quoted rest
      return (.text t, rest)
    | '[' :: _, 0 | '\x7b' :: _, 0 => .error .tooDeep
    | '[' :: rest, depth + 1 =>
      match skipSpace rest with
      | ']' :: rest => .ok (.list [], rest)
      | rest => do
        let (xs, rest) ← items fuel depth rest
        return (.list xs, rest)
    | '\x7b' :: rest, depth + 1 =>
      match skipSpace rest with
      | '\x7d' :: rest => .ok (.object [], rest)
      | rest => do
        let (fs, rest) ← fields fuel depth rest
        return (ofFields fs, rest)
    | input, _ => atom input

/-- Reads the items of a list up to its closing bracket. -/
def items : (fuel depth : Nat) → Text → Except Misread (List Json × Text)
  | 0, _, input => .error (.malformed .value input)
  | fuel + 1, depth, input => do
    let (x, rest) ← value fuel depth input
    match skipSpace rest with
    | ']' :: rest => return ([x], rest)
    | ',' :: rest =>
      let (xs, rest) ← items fuel depth (skipSpace rest)
      return (x :: xs, rest)
    | rest => .error (.malformed .comma rest)

/-- Reads the fields of an object up to its closing brace. -/
def fields : (fuel depth : Nat) → Text → Except Misread (List (Text × Json) × Text)
  | 0, _, input => .error (.malformed .value input)
  | fuel + 1, depth, input =>
    match input with
    | '"' :: rest => do
      let (key, rest) ← quoted rest
      match skipSpace rest with
      | ':' :: rest =>
        let (x, rest) ← value fuel depth (skipSpace rest)
        match skipSpace rest with
        | '\x7d' :: rest => return ([(key, x)], rest)
        | ',' :: rest =>
          let (fs, rest) ← fields fuel depth (skipSpace rest)
          return ((key, x) :: fs, rest)
        | rest => .error (.malformed .comma rest)
      | rest => .error (.malformed .colon rest)
    | input => .error (.malformed .key input)

end

/-- The value that a whole text spells, with nothing but space around it. -/
def parse (input : Text) : Except Misread Json :=
  if input.head? = some '\uFEFF' then .error (.malformed .byteOrderMark input)
  else do
    let (x, rest) ← value (2 * input.length + 2) maxDepth (skipSpace input)
    match skipSpace rest with
    | [] => return x
    | rest => .error (.malformed .extraData rest)

end ApiReference.Json
