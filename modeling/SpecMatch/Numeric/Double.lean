/-!
# Double-precision numbers

`Double` holds the binary floating-point numbers of 64 bits by their exact value: every finite
one is a whole multiple of 2⁻¹⁰⁷⁴, so its magnitude is a natural number counted in that unit
and comparing two of them is comparing integers. `Double.ofRatio` rounds a fraction to the
nearest double, `Double.ofDecimal` reads digits with a power of ten, and `Number` puts doubles
and integers on one exact scale.
-/

namespace SpecMatch

/-- A floating-point number of 64 bits. A NaN carries an identity, because two of them are told
apart only by being the same object or not. -/
inductive Double where
  | nan (id : Nat)
  | infinite (negative : Bool)
  /-- A finite number whose magnitude is counted in units of 2⁻¹⁰⁷⁴. -/
  | finite (negative : Bool) (magnitude : Nat)
deriving DecidableEq

namespace Double

/-- How many units of magnitude make 1. -/
def unitsPerOne : Nat := Nat.pow 2 1074

/-- The quotient rounded to the nearest natural number, a half to the even neighbour. -/
def roundDiv (num den : Nat) : Nat :=
  let q := num / den
  let twice := 2 * (num % den)
  if twice < den then q
  else if den < twice then q + 1
  else q + q % 2

/-- The distance from a magnitude to the next larger one that 53 significant bits can write. -/
def gap (magnitude : Nat) : Nat :=
  if magnitude < Nat.pow 2 53 then 1 else Nat.pow 2 (magnitude.log2 - 52)

/-- The double nearest to `num / den`; beyond the largest finite one it is an infinity. -/
def ofRatio (negative : Bool) (num den : Nat) : Double :=
  let scaled := num * unitsPerOne
  let step := gap (scaled / den)
  let magnitude := roundDiv scaled (den * step) * step
  if magnitude < Nat.pow 2 2098 then .finite negative magnitude else .infinite negative

/-- How many decimal digits a number has. -/
def digitCount (n : Nat) : Nat := (Nat.repr n).length

/-- The double nearest to `digits · 10 ^ exponent`. Powers far outside the range are answered
without being computed. -/
def ofDecimal (negative : Bool) (digits : Nat) (exponent : Int) : Double :=
  let top := exponent + digitCount digits
  if digits = 0 || top < -400 then .finite negative 0
  else if top > 400 then .infinite negative
  else ofRatio negative (digits * Nat.pow 10 exponent.toNat) (Nat.pow 10 (-exponent).toNat)

/-- Whether the number is one of the two zeros. -/
def isZero : Double → Bool
  | .finite _ magnitude => magnitude == 0
  | _ => false

end Double

/-- A number of either kind by its exact value, an integer being counted in the unit of the
finite doubles. -/
inductive Number where
  | nan (id : Nat)
  | infinite (negative : Bool)
  | units (count : Int)
deriving DecidableEq

namespace Number

/-- The exact value of an integer. -/
def ofInt (i : Int) : Number := .units (i * Double.unitsPerOne)

/-- The exact value of a double; both zeros have the same one. -/
def ofDouble : Double → Number
  | .nan id => .nan id
  | .infinite negative => .infinite negative
  | .finite negative magnitude => .units (if negative then -magnitude else magnitude)

/-- How two numbers are ordered, if neither is a NaN. -/
def compare? : Number → Number → Option Ordering
  | .nan _, _ => none
  | _, .nan _ => none
  | .infinite m, .infinite n => some (if m == n then .eq else if m then .lt else .gt)
  | .infinite m, .units _ => some (if m then .lt else .gt)
  | .units _, .infinite n => some (if n then .gt else .lt)
  | .units a, .units b => some (compare a b)

end Number

end SpecMatch
