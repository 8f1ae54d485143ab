import ApiReference.Decimal.Binary64

/-!
# Shortest decimal texts

A number is shown with the fewest digits that are read back as the same number;
among those, with the ones nearest to it.  The reals that round to a number form
an interval, so the search is for the coarsest decimal grid with a point in it,
and only the two neighbours of the number have to be tried on each grid.
-/

namespace ApiReference.Decimal

/-- A positive decimal number, `digits * 10 ^ scale`. -/
structure Scaled where
  digits : Nat
  scale : Int
deriving DecidableEq, Repr

/-- A number and the reals that are read back as it, over one denominator. The ends belong to the
interval when `closed` holds. -/
structure Interval where
  low : Nat
  value : Nat
  high : Nat
  den : Nat
  closed : Bool
deriving DecidableEq, Repr

/-- The reals that round to `m * 2 ^ e`; below a power of two they lie half as far. -/
def Interval.of (m : Nat) (e : Int) : Interval :=
  let down := if m = Nat.pow 2 52 ∧ -1074 < e then 1 else 2
  let up := Nat.pow 2 (e - 2).toNat
  ⟨(4 * m - down) * up, 4 * m * up, (4 * m + 2) * up, Nat.pow 2 (2 - e).toNat, m % 2 == 0⟩

/-- The interval measured in units of `10 ^ scale`. -/
def Interval.inUnits (i : Interval) (scale : Int) : Interval :=
  let factor := Nat.pow 10 (-scale).toNat
  ⟨i.low * factor, i.value * factor, i.high * factor, i.den * Nat.pow 10 scale.toNat, i.closed⟩

def Interval.holds (i : Interval) (n : Nat) : Bool :=
  let point := n * i.den
  if i.closed then i.low ≤ point && point ≤ i.high else i.low < point && point < i.high

/-- The multiple of the unit that lies in the interval: of the two neighbours of the number the
nearer one, in a tie the even one. -/
def Interval.nearest? (i : Interval) : Option Nat :=
  let n := i.value / i.den
  match i.holds n, i.holds (n + 1) with
  | false, false => none
  | true, false => some n
  | false, true => some (n + 1)
  | true, true =>
    let r := 2 * (i.value % i.den)
    some (if r < i.den || (r == i.den && n % 2 == 0) then n else n + 1)

/-- The number of digits before the decimal point; below one, less the zeros after it. -/
def pointOf (num den : Nat) : Int :=
  if den ≤ num then (Text.ofNat (num / den)).length
  else match (List.range 330).find? fun j => den ≤ num * Nat.pow 10 (j + 1) with
    | some j => -j
    | none => 0

/-- The decimal with the fewest digits that is read back as `m * 2 ^ e`. -/
def shortest (m : Nat) (e : Int) : Scaled :=
  let i := Interval.of m e
  let point := pointOf i.value i.den
  let best? := (List.range 17).findSome? fun count =>
    let scale := point - (count + 1 : Nat)
    (i.inUnits scale).nearest?.map (Scaled.mk · scale)
  best?.getD ⟨0, 0⟩

/-- The digits without zeros at the end, and the place of the decimal point before them. -/
def Scaled.normal (d : Scaled) : Text × Int :=
  let digits := Text.ofNat d.digits
  ((digits.reverse.dropWhile (· == '0')).reverse, digits.length + d.scale)

/-- How decimal numbers are laid out. -/
structure Layout where
  /-- The point may stand after this many digits at most before an exponent is used. -/
  maxPoint : Int
  /-- The point may stand before this many zeros at most. -/
  minPoint : Int
  exponentDigits : Nat
deriving DecidableEq, Repr

/-- Numbers of documents are positional from `0.0001` to sixteen digits; an exponent has a sign and
two digits at least. -/
def Layout.document : Layout := ⟨16, -3, 2⟩

def zeros (n : Nat) : Text := List.replicate n '0'

/-- The text of the digits with the decimal point at the given place. -/
def Layout.render (layout : Layout) (digits : Text) (point : Int) : Text :=
  if layout.minPoint ≤ point ∧ point ≤ layout.maxPoint then
    if point ≤ 0 then "0." ++ zeros (-point).toNat ++ digits
    else if point < digits.length then
      digits.take point.toNat ++ '.' :: digits.drop point.toNat
    else digits ++ zeros (point - digits.length).toNat ++ ".0"
  else
    let exponent := point - 1
    let shown := Text.ofNat exponent.natAbs
    digits.take 1 ++ (if digits.length ≤ 1 then [] else '.' :: digits.drop 1) ++
      'e' :: (if exponent < 0 then '-' else '+') ::
        (zeros (layout.exponentDigits - shown.length) ++ shown)

/-- The text of a number: the fewest digits that read back. -/
def Binary64.toText (layout : Layout) : Binary64 → Text
  | .nan => "nan"
  | .infinite negative => if negative then "-inf" else "inf"
  | .finite negative m e =>
    let sign : Text := if negative then ['-'] else []
    let size : Text :=
      if m = 0 then "0.0"
      else
        let normal := (shortest m e).normal
        layout.render normal.1 normal.2
    sign ++ size

end ApiReference.Decimal
