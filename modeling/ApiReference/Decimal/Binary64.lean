import ApiReference.Text.Basic

/-!
# Binary floating point numbers

Numbers with a fraction or an exponent are kept as the nearest binary number of
64 bits, ties to even.  Everything here is exact arithmetic on whole numbers: a
finite number is a sign, a mantissa and a power of two.
-/

namespace ApiReference.Decimal

/-- A 64 bit floating point number. A finite one is `mantissa * 2 ^ exponent`, with the mantissa
below `2 ^ 53` and the exponent at least `-1074`. -/
inductive Binary64 where
  | nan
  | infinite (negative : Bool)
  | finite (negative : Bool) (mantissa : Nat) (exponent : Int)
deriving DecidableEq, Repr

namespace Binary64

/-- The quotient rounded to the nearest number, a tie to the even one. -/
def roundDiv (num den : Nat) : Nat :=
  let q := num / den
  let r := num % den
  if 2 * r < den then q
  else if den < 2 * r then q + 1
  else if q % 2 = 0 then q else q + 1

/-- The exponent of the leading binary digit of `num / den`. -/
def leadingExponent (num den : Nat) : Int :=
  let b : Int := num.log2 - den.log2
  if den * Nat.pow 2 b.toNat ≤ num * Nat.pow 2 (-b).toNat then b else b - 1

/-- The number nearest to the positive fraction `num / den`. -/
def ofFraction (negative : Bool) (num den : Nat) : Binary64 :=
  let e := max (leadingExponent num den - 52) (-1074)
  let q := roundDiv (num * Nat.pow 2 (-e).toNat) (den * Nat.pow 2 e.toNat)
  let (m, e) := if q = Nat.pow 2 53 then (Nat.pow 2 52, e + 1) else (q, e)
  if 971 < e then .infinite negative else .finite negative m e

/-- The number nearest to `digits * 10 ^ scale`. -/
def ofDecimal (negative : Bool) (digits : Nat) (scale : Int) : Binary64 :=
  let size : Int := (Text.ofNat digits).length + scale
  if digits = 0 || size < -330 then .finite negative 0 (-1074)
  else if 320 < size then .infinite negative
  else ofFraction negative (digits * Nat.pow 10 scale.toNat) (Nat.pow 10 (-scale).toNat)

def isZero : Binary64 → Bool
  | .finite _ m _ => m == 0
  | _ => false

/-- The number without its fraction; there is none for an infinity or for no number. -/
def truncate? : Binary64 → Option Int
  | .finite negative m e =>
    let n : Int := (m * Nat.pow 2 e.toNat / Nat.pow 2 (-e).toNat : Nat)
    some (if negative then -n else n)
  | _ => none

/-- A finite number as a fraction. -/
def fraction? : Binary64 → Option (Int × Nat)
  | .finite negative m e =>
    let n : Int := (m * Nat.pow 2 e.toNat : Nat)
    some (if negative then -n else n, Nat.pow 2 (-e).toNat)
  | _ => none

end Binary64

end ApiReference.Decimal
