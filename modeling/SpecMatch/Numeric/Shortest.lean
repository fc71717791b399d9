import SpecMatch.Numeric.Double

/-!
# The shortest decimal that reads back

A finite double is written with the fewest decimal digits that still round to it, and among the
decimals of that length with the nearest. `Double.shortest` finds them by exact integer
arithmetic: on the grid of decimals of one, two, … seventeen digits it tests the two neighbours
of the value against the interval of reals that round to it.
-/

namespace SpecMatch

/-- A decimal `digits · 10 ^ exponent`. -/
structure Decimal where
  digits : Nat
  exponent : Int
deriving DecidableEq

namespace Decimal

/-- The same decimal without trailing zeros, with at most `fuel` of them removed. -/
def trim : Nat → Decimal → Decimal
  | 0, d => d
  | fuel + 1, d =>
    if d.digits != 0 && d.digits % 10 == 0 then trim fuel ⟨d.digits / 10, d.exponent + 1⟩ else d

end Decimal

namespace Double

/-- The ends of the interval of reals that round to a magnitude, in quarters of a unit. Below a
power of two the neighbour is only half as far away. -/
def quarters (magnitude : Nat) : Nat × Nat :=
  let step := gap magnitude
  let below := if step > 1 && magnitude == Nat.pow 2 magnitude.log2 then step else 2 * step
  (4 * magnitude - below, 4 * magnitude + 2 * step)

/-- Whether `digits · 10 ^ exponent` rounds to the magnitude. The ends of the interval belong to
it exactly when the last bit of the magnitude is zero. -/
def readsBack (magnitude digits : Nat) (exponent : Int) : Bool :=
  let (low, high) := quarters magnitude
  let decimal := digits * Nat.pow 10 exponent.toNat * (4 * unitsPerOne)
  let scale := Nat.pow 10 (-exponent).toNat
  if magnitude / gap magnitude % 2 == 0 then
    low * scale ≤ decimal && decimal ≤ high * scale
  else
    low * scale < decimal && decimal < high * scale

/-- The number of digits before the decimal point of a positive magnitude: the least `k` such that
the value lies below `10 ^ k`. -/
def decimalPoint (magnitude : Nat) : Int :=
  let below (k : Int) : Bool :=
    magnitude * Nat.pow 10 (-k).toNat < Nat.pow 10 k.toNat * unitsPerOne
  let start : Int := ((magnitude.log2 : Int) - 1074) * 30103 / 100000 - 1
  ([start, start + 1, start + 2, start + 3].find? below).getD (start + 4)

/-- The decimal of `count` digits nearest to the magnitude, if one that reads back exists. Of two
that are equally near the even one is taken. -/
def nearestWith? (magnitude count : Nat) : Option Decimal :=
  let exponent := decimalPoint magnitude - count
  let num := magnitude * Nat.pow 10 (-exponent).toNat
  let den := unitsPerOne * Nat.pow 10 exponent.toNat
  let floor := num / den
  match readsBack magnitude floor exponent, readsBack magnitude (floor + 1) exponent with
  | true, true => some ⟨roundDiv num den, exponent⟩
  | true, false => some ⟨floor, exponent⟩
  | false, true => some ⟨floor + 1, exponent⟩
  | false, false => none

/-- The shortest decimal that reads back as the positive magnitude, without trailing zeros. -/
def shortest (magnitude : Nat) : Decimal :=
  let counts := (List.range 17).map (· + 1)
  ((counts.findSome? (nearestWith? magnitude)).getD ⟨0, 0⟩).trim 20

end Double

end SpecMatch
