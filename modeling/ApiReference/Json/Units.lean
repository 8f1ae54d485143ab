import ApiReference.Text.Basic

/-!
# Code units of texts

A document can spell a character by its number, and a large one by the two halves of
a surrogate pair.  A half without the other one is kept, although it is no character
and cannot be encoded (`half`).
-/

namespace ApiReference.Json

/-- The value of a hexadecimal digit. -/
def hexValue? (c : Char) : Option Nat :=
  if c.isDigit then some (c.toNat - 48)
  else if 'a' ≤ c ∧ c ≤ 'f' then some (c.toNat - 87)
  else if 'A' ≤ c ∧ c ≤ 'F' then some (c.toNat - 55)
  else none

def hexUnit? (a b c d : Char) : Option Nat := do
  let a ← hexValue? a
  let b ← hexValue? b
  let c ← hexValue? c
  let d ← hexValue? d
  return ((a * 16 + b) * 16 + c) * 16 + d

/-- What a letter after a backslash stands for. -/
def escapeCode? : Char → Option Nat
  | '"' => some 34
  | '\\' => some 92
  | '/' => some 47
  | 'b' => some 8
  | 'f' => some 12
  | 'n' => some 10
  | 'r' => some 13
  | 't' => some 9
  | _ => none

def isHighSurrogate (n : Nat) : Bool := 0xD800 ≤ n && n < 0xDC00

def isLowSurrogate (n : Nat) : Bool := 0xDC00 ≤ n && n < 0xE000

/-- What stands in a text for half of a surrogate pair. No character has the number of a half, so
each half has one of the last characters for private use in its place. -/
def half (n : Nat) : Char := Char.ofNat (0x10F800 + (n - 0xD800))

/-- Whether a character can stand for half of a surrogate pair. -/
def isHalf (c : Char) : Bool := 0x10F800 ≤ c.toNat

def ofUnit (n : Nat) : Char :=
  if isHighSurrogate n || isLowSurrogate n then half n else Char.ofNat n

/-- Joins the two halves of a surrogate pair to one character. -/
def joinUnits : List Nat → Text
  | [] => []
  | [n] => [ofUnit n]
  | h :: l :: us =>
    if isHighSurrogate h && isLowSurrogate l then
      Char.ofNat (0x10000 + (h - 0xD800) * 0x400 + (l - 0xDC00)) :: joinUnits us
    else ofUnit h :: joinUnits (l :: us)

/-- Whether a document spells half of a surrogate pair without the other half, where `high` tells
whether the first half of a pair stands directly before. -/
def spellsHalf (high : Bool) : Text → Bool
  | [] => high
  | '\\' :: 'u' :: a :: b :: c :: d :: rest =>
    match hexUnit? a b c d with
    | some unit =>
      if isLowSurrogate unit then !high || spellsHalf false rest
      else high || spellsHalf (isHighSurrogate unit) rest
    | none => high || spellsHalf false rest
  | '\\' :: _ :: rest => high || spellsHalf false rest
  | _ :: rest => high || spellsHalf false rest

end ApiReference.Json
